/-
What an enrolment leaves behind, wherever it ends.

The invariant says for each phase what the names link to.  Between the hard link and the removal
of the staging name the identity has two names, and `read_identity` takes no file that has.

* **`recoverable_iff`** — a call that ends in a phase leaves a recoverable directory if the phase
  is `safe`, and only then.
* **`spec_step`** — one step, **`inv_of_reach`** — a whole run.
* **`stuck_of_reach`** — a file with two names is refused by every later call.
-/
import NebulaDesk.Desktop.Enrollment

namespace NebulaDesk

namespace Enrollment

variable {codec : HostCodec} {d d' : LinkDirectory Name}

/-! ### The identity is read as it was written -/

theorem DesktopMetadata.ofValue_value (desktop : DesktopMetadata) :
    ofValue desktop.value = some desktop := by
  unfold ofValue value
  generalize hfields : [("version".toList, Json.Value.number desktop.version.toNat),
    ("name".toList, .string desktop.name)] = fields
  have hversion : Json.required fields "version".toList =
      some (.number desktop.version.toNat) := by
    simp [← hfields, Json.required, Json.member]
  have hname : Json.required fields "name".toList = some (.string desktop.name) := by
    simp [← hfields, Json.required, Json.member]
  simp only [Json.Value.asObject, Option.bind_eq_bind, Option.bind_some, hversion, hname,
    Json.Value.asString, Json.Value.asNumber_of_lt desktop.version.toNat_lt, UInt32.ofNat_toNat]

theorem StoredIdentity.ofValue_value (uuids : UuidReader) (stored : StoredIdentity) :
    ofValue uuids stored.value = some stored := by
  unfold ofValue value
  generalize hfields : [("machine_id".toList,
      Json.Value.string (uuid stored.identity.machineId.val)),
    ("credential".toList, .string stored.identity.credential),
    ("noise_secret".toList, .string stored.identity.noiseSecret),
    ("manager_url".toList, .string stored.identity.managerUrl),
    ("desktop".toList, (stored.desktop.map DesktopMetadata.value).getD .null)] = fields
  have hid : Json.required fields "machine_id".toList =
      some (.string (uuid stored.identity.machineId.val)) := by
    simp [← hfields, Json.required, Json.member]
  have hcredential : Json.required fields "credential".toList =
      some (.string stored.identity.credential) := by
    simp [← hfields, Json.required, Json.member]
  have hsecret : Json.required fields "noise_secret".toList =
      some (.string stored.identity.noiseSecret) := by
    simp [← hfields, Json.required, Json.member]
  have hurl : Json.required fields "manager_url".toList =
      some (.string stored.identity.managerUrl) := by
    simp [← hfields, Json.required, Json.member]
  have hdesktop : Json.member fields "desktop".toList =
      some (some ((stored.desktop.map DesktopMetadata.value).getD .null)) := by
    simp [← hfields, Json.member]
  simp only [Json.Value.asObject, Option.bind_eq_bind, Option.bind_some, hid, hcredential, hsecret,
    hurl, hdesktop, Json.Value.asString, uuids.parse_uuid]
  obtain ⟨identity, desktop⟩ := stored
  cases desktop with
  | none => rfl
  | some desktop =>
    have hof := DesktopMetadata.ofValue_value desktop
    obtain ⟨bound, hobject⟩ : ∃ bound, desktop.value = .object bound := ⟨_, rfl⟩
    rw [hobject] at hof
    simp only [Option.map_some, Option.getD_some, hobject, hof, Option.bind_some]

theorem StoredIdentity.fits (stored : StoredIdentity) : stored.value.fits 128 := by
  obtain ⟨identity, desktop⟩ := stored
  cases desktop with
  | none => rfl
  | some desktop =>
    have hversion := desktop.version.toNat_lt
    simp [value, DesktopMetadata.value, Json.Value.fits, Json.fitsFields]
    omega

theorem read_json (codec : HostCodec) (stored : StoredIdentity) :
    (codec.json.read stored.json).bind (StoredIdentity.ofValue codec.uuids) = some stored := by
  have hread := codec.json.read_text stored.value [] stored.fits (by simp)
  rw [List.append_nil] at hread
  rw [StoredIdentity.json, hread]
  exact StoredIdentity.ofValue_value codec.uuids stored

/-! ### What can be read -/

theorem recoverable_of_free (codec : HostCodec) (h : d.lookup .identity = none) :
    Recoverable codec d := by
  refine .inl ⟨?_, if_pos h⟩
  rw [readIdentity, h]

theorem rejectExisting_ok (h : rejectExisting d = .ok ()) : d.lookup .identity = none := by
  unfold rejectExisting at h
  split at h
  · assumption
  · cases h

/-- The file that an identity was written to, with `n` names. -/
structure Named (d : LinkDirectory Name) (i : ℕ) (stored : StoredIdentity) (n : ℕ) : Prop where
  name : d.lookup .identity = some i
  nlink : d.nlink i = n
  file : d.file i = some ⟨stored.json, true, true⟩

theorem Named.recoverable_iff {i n : ℕ} {stored : StoredIdentity} (h : Named d i stored n) :
    Recoverable codec d ↔ n = 1 ∧ stored.json.length ≤ maxIdentity := by
  have hverify : verifyFile d .identity i = decide (n = 1) := by
    simp [verifyFile, h.name, h.nlink, h.file]
  have hread : readIdentity codec d =
      if n = 1 ∧ stored.json.length ≤ maxIdentity then .ok (some stored)
      else .error .agentState := by
    rw [readIdentity, h.name]
    simp only [h.file, hverify]
    by_cases hn : n = 1
    · by_cases hsize : stored.json.length ≤ maxIdentity
      · have htake : stored.json.take (maxIdentity + 1) = stored.json :=
          List.take_of_length_le (by omega)
        simp [hn, hsize, htake, read_json, Nat.not_lt.mpr hsize]
      · simp [hn, hsize]
    · simp [hn]
  unfold Recoverable
  rw [hread]
  split
  · next hok => exact ⟨fun _ => hok, fun _ => .inr ⟨stored, rfl⟩⟩
  · next hno =>
    refine ⟨fun hrec => ?_, fun hok => absurd hok hno⟩
    rcases hrec with ⟨h, -⟩ | ⟨stored', h⟩ <;> cases h

/-- `read_identity` looks at the file of the identity only. -/
theorem recoverable_congr (codec : HostCodec) (hname : d'.lookup .identity = d.lookup .identity)
    (hfile : ∀ i, d.lookup .identity = some i → d'.file i = d.file i ∧ d'.nlink i = d.nlink i) :
    Recoverable codec d' ↔ Recoverable codec d := by
  have hread : readIdentity codec d' = readIdentity codec d := by
    unfold readIdentity verifyFile
    rw [hname]
    cases h : d.lookup .identity with
    | none => rfl
    | some i =>
      obtain ⟨hf, hn⟩ := hfile i h
      simp only [hf, hn]
  have hreject : rejectExisting d' = rejectExisting d := by rw [rejectExisting, hname, rejectExisting]
  rw [Recoverable, hread, hreject, Recoverable]

theorem acquire_eq_ok (codec : HostCodec) {name : Name} (hne : name ≠ .identity)
    (h : acquireNamedLock d name = .ok d') :
    d'.lookup .identity = d.lookup .identity ∧ (Recoverable codec d' ↔ Recoverable codec d) := by
  unfold acquireNamedLock at h
  split at h
  · split at h
    · cases h
      exact ⟨rfl, .rfl⟩
    · cases h
  · split at h
    · next hcreate =>
      cases h
      have hname : d'.lookup .identity = d.lookup .identity := by
        rw [LinkDirectory.lookup_create hcreate, if_neg (Ne.symm hne)]
      refine ⟨hname, recoverable_congr codec hname fun i hi => ?_⟩
      have hlt := LinkDirectory.lookup_lt hi
      exact ⟨(LinkDirectory.file_create hcreate).2 i hlt, LinkDirectory.nlink_create_of_lt hcreate hlt⟩
    · cases h

/-! ### The invariant -/

structure Staged (d : LinkDirectory Name) (staging : Staging) (content : List UInt8) : Prop where
  free : d.lookup .identity = none
  name : d.lookup (.pending staging.id) = some staging.file
  nlink : d.nlink staging.file = 1
  file : d.file staging.file = some ⟨content, true, true⟩

/-- What the names link to in each phase. -/
def Inv (codec : HostCodec) (s : Enrollment) : Prop :=
  match s.phase with
  | .idle | .ended _ | .looking _ | .locking _ | .lookingAgain _ => Recoverable codec s.disk
  | .marking _ | .serving _ | .creating _ | .unwinding _ _ => s.disk.lookup .identity = none
  | .verifying _ staging | .requesting _ staging | .writing _ staging =>
    ∃ content, Staged s.disk staging content
  | .syncing stored staging | .linking stored staging => Staged s.disk staging stored.json
  | .linked stored staging | .dropping stored staging _ =>
    Named s.disk staging.file stored 2 ∧ s.disk.lookup (.pending staging.id) = some staging.file
  | .dropped stored removed _ | .reading stored removed =>
    ∃ i, Named s.disk i stored (if removed then 1 else 2)

theorem recoverable_iff {s : Enrollment} (h : s.Inv codec) :
    Recoverable codec s.disk ↔ s.phase.safe = true := by
  obtain ⟨disk, phase⟩ := s
  cases phase with
  | idle | ended | looking | locking | lookingAgain => exact ⟨fun _ => rfl, fun _ => h⟩
  | marking | serving | creating | unwinding =>
    exact ⟨fun _ => rfl, fun _ => recoverable_of_free codec h⟩
  | verifying | requesting | writing =>
    obtain ⟨content, hstaged⟩ := h
    exact ⟨fun _ => rfl, fun _ => recoverable_of_free codec hstaged.free⟩
  | syncing stored staging | linking stored staging =>
    exact ⟨fun _ => rfl, fun _ => recoverable_of_free codec h.free⟩
  | linked stored staging | dropping stored staging synced =>
    rw [h.1.recoverable_iff]
    simp [Phase.safe]
  | dropped stored removed synced | reading stored removed =>
    obtain ⟨i, hnamed⟩ := h
    rw [hnamed.recoverable_iff]
    cases removed <;> simp [Phase.safe]

/-! ### One step -/

/-- What a step comes to: the invariant again, or an end. -/
def Spec (codec : HostCodec) (s s' : Enrollment) : Prop :=
  (s'.phase.out = false → s'.Inv codec) ∧
    (s'.phase.out = true → (Recoverable codec s'.disk ↔ s.phase.safe = true))

variable {s s' : Enrollment}

theorem spec_of_inv (hin : s'.phase.out = false) (h : s'.Inv codec) : Spec codec s s' :=
  ⟨fun _ => h, fun hout => absurd hout (by simp [hin])⟩

theorem spec_of_end {s : Enrollment} (hs : s.Inv codec) {phase : Phase} (hout : phase.out = true) :
    Spec codec s ⟨s.disk, phase⟩ :=
  ⟨fun hin => absurd hin (by simp [hout]), fun _ => recoverable_iff hs⟩

theorem spec_finish (hs : s.Inv codec) {code : Code}
    (h : s.finish code = some s') : Spec codec s s' := by
  cases h
  exact spec_of_end hs rfl

theorem spec_lockThen (hs : s.Inv codec) {name : Name} {phase : Phase}
    (h : s.lockThen name phase = some s') (hne : name ≠ .identity) (hin : phase.out = false)
    (hphase : ∀ disk, disk.lookup .identity = s.disk.lookup .identity →
      (Recoverable codec disk ↔ Recoverable codec s.disk) → Inv codec ⟨disk, phase⟩) :
    Spec codec s s' := by
  unfold lockThen at h
  split at h
  · next disk hacquire =>
    cases h
    obtain ⟨hname, hrec⟩ := acquire_eq_ok codec hne hacquire
    exact spec_of_inv hin (hphase disk hname hrec)
  · exact spec_finish hs h

theorem spec_go (hs : s.Inv codec) (h : s.go codec = some s') : Spec codec s s' := by
  obtain ⟨disk, phase⟩ := s
  cases phase with
  | idle | ended | creating | requesting => cases h
  | looking r =>
    simp only [go] at h
    split at h
    · exact spec_finish hs h
    · split at h
      · exact spec_finish hs h
      · cases h
        exact spec_of_inv rfl hs
  | locking plan =>
    exact spec_lockThen hs h (by decide) rfl fun disk' _ hrec => hrec.mpr hs
  | lookingAgain plan =>
    simp only [go] at h
    split at h
    · exact spec_finish hs h
    · next hreject =>
      cases h
      exact spec_of_inv rfl (rejectExisting_ok hreject)
  | marking plan =>
    simp only [go] at h
    split at h
    · cases h
      exact spec_of_inv rfl hs
    · exact spec_finish hs h
  | serving plan =>
    exact spec_lockThen hs h (by decide) rfl fun disk' hname _ => hname.trans hs
  | verifying plan staging =>
    simp only [go] at h
    split at h
    · cases h
      exact spec_of_inv rfl hs
    · exact spec_finish hs h
  | writing stored staging =>
    cases h
    obtain ⟨content, hstaged⟩ := hs
    refine spec_of_inv rfl ⟨hstaged.free, hstaged.name, hstaged.nlink, ?_⟩
    rw [LinkDirectory.file_write, if_pos rfl, hstaged.file]
    rfl
  | syncing stored staging =>
    cases h
    exact spec_of_inv rfl hs
  | linking stored staging =>
    simp only [go] at h
    split at h
    · next disk' hlink =>
      cases h
      -- the second name of the staged file
      refine spec_of_inv rfl ⟨⟨?_, ?_, ?_⟩, ?_⟩
      · rw [LinkDirectory.lookup_hardLink hlink, if_pos rfl, hs.name]
      · rw [LinkDirectory.nlink_hardLink hlink hs.name, hs.nlink]
      · rw [LinkDirectory.file_hardLink hlink, hs.file]
      · rw [LinkDirectory.lookup_hardLink hlink, if_neg (by simp), hs.name]
    · cases h
      exact spec_of_inv rfl hs.free
  | linked stored staging =>
    cases h
    exact spec_of_inv rfl hs
  | dropping stored staging synced =>
    cases h
    obtain ⟨hnamed, hpending⟩ := hs
    have hcount := (LinkDirectory.nlink_unlink hpending).trans hnamed.nlink
    refine spec_of_inv rfl ⟨staging.file, ?_, Nat.succ.inj hcount, hnamed.file⟩
    rw [LinkDirectory.lookup_unlink, if_neg (by simp)]
    exact hnamed.name
  | dropped stored removed synced =>
    cases synced with
    | true =>
      cases h
      exact spec_of_inv rfl hs
    | false => exact spec_finish hs h
  | reading stored removed =>
    cases h
    exact spec_of_end hs rfl
  | unwinding staging code =>
    cases h
    have hfree : (disk.unlink (.pending staging.id)).lookup .identity = none := by
      rw [LinkDirectory.lookup_unlink, if_neg (by simp)]
      exact hs
    exact ⟨fun hin => (by cases hin), fun _ => ⟨fun _ => rfl, fun _ => recoverable_of_free codec hfree⟩⟩

theorem spec_fail (hs : s.Inv codec) (h : s.fail = some s') : Spec codec s s' := by
  obtain ⟨disk, phase⟩ := s
  cases phase with
  | idle | ended => cases h
  | looking | locking | lookingAgain | marking | serving | creating | verifying | dropped | reading
  | unwinding => exact spec_finish hs h
  | requesting plan staging | writing stored staging =>
    cases h
    obtain ⟨content, hstaged⟩ := hs
    exact spec_of_inv rfl hstaged.free
  | syncing stored staging | linking stored staging =>
    cases h
    exact spec_of_inv rfl hs.free
  | linked stored staging =>
    cases h
    exact spec_of_inv rfl hs
  | dropping stored staging synced =>
    cases h
    exact spec_of_inv rfl ⟨staging.file, hs.1⟩

theorem spec_answer (hs : s.Inv codec) {secret : Key32} {machineId : Uuid}
    {credential : Text} (h : s.answer secret machineId credential = some s') : Spec codec s s' := by
  obtain ⟨disk, phase⟩ := s
  cases phase with
  | requesting plan staging =>
    simp only [answer] at h
    split at h
    · cases h
      obtain ⟨content, hstaged⟩ := hs
      exact spec_of_inv rfl hstaged.free
    · cases h
      exact spec_of_inv rfl hs
  | _ => cases h

theorem spec_stage (hs : s.Inv codec) {id : Uuid}
    (h : s.step codec (.stage id) = some s') : Spec codec s s' := by
  obtain ⟨disk, phase⟩ := s
  cases phase with
  | creating plan =>
    simp only [step] at h
    split at h
    · next disk' hcreate =>
      cases h
      refine spec_of_inv rfl ⟨[], ?_, ?_, LinkDirectory.nlink_create hcreate,
        (LinkDirectory.file_create hcreate).1⟩
      · rw [LinkDirectory.lookup_create hcreate, if_neg (by simp)]
        exact hs
      · rw [LinkDirectory.lookup_create hcreate, if_pos rfl]
    · exact spec_finish hs h
  | _ => cases h

theorem spec_part (hs : s.Inv codec) {n : ℕ}
    (h : s.step codec (.part n) = some s') : Spec codec s s' := by
  obtain ⟨disk, phase⟩ := s
  cases phase with
  | writing stored staging =>
    cases h
    obtain ⟨content, hstaged⟩ := hs
    refine spec_of_inv rfl ⟨stored.json.take n, hstaged.free, hstaged.name, hstaged.nlink, ?_⟩
    rw [LinkDirectory.file_write, if_pos rfl, hstaged.file]
    rfl
  | _ => cases h

theorem spec_step (hs : s.Inv codec) {e : Event}
    (h : s.step codec e = some s') : Spec codec s s' := by
  cases e with
  | begin r =>
    simp only [step] at h
    split at h
    · next hout =>
      cases h
      refine spec_of_inv rfl ?_
      obtain ⟨disk, phase⟩ := s
      cases phase with
      | idle | ended => exact hs
      | _ => cases hout
    · cases h
  | go => exact spec_go hs h
  | fail => exact spec_fail hs h
  | busy =>
    simp only [step] at h
    split at h
    · exact spec_finish hs h
    · exact spec_finish hs h
    · cases h
  | stage id => exact spec_stage hs h
  | answer secret machineId credential => exact spec_answer hs h
  | part n => exact spec_part hs h
  | die =>
    simp only [step] at h
    split at h
    · cases h
    · cases h
      exact spec_of_end hs rfl

/-! ### Whole runs -/

theorem inv_safeStep (hs : s.Inv codec) {e : Event}
    (h : s.safeStep codec e = some s') : s'.Inv codec := by
  obtain ⟨hstep, hsafe⟩ := Option.filter_eq_some_iff.mp h
  obtain ⟨hin, hend⟩ := spec_step hs hstep
  cases hout : s'.phase.out with
  | false => exact hin hout
  | true =>
    have hrec : Recoverable codec s'.disk := (hend hout).mpr (by simpa [hout] using hsafe)
    obtain ⟨disk, phase⟩ := s'
    cases phase with
    | idle | ended => exact hrec
    | _ => cases hout

theorem inv_of_out {s : Enrollment} (hout : s.phase.out = true) (h : Recoverable codec s.disk) :
    s.Inv codec := by
  obtain ⟨disk, phase⟩ := s
  cases phase with
  | idle | ended => exact h
  | _ => cases hout

variable {init s : Enrollment}

theorem inv_of_reach (codec : HostCodec) (hout : init.phase.out = true)
    (hinit : Recoverable codec init.disk) (hr : Runs.Reach (safeStep codec) init s) : s.Inv codec :=
  hr.invariant (inv_of_out hout hinit) fun _ _ _ hs h => inv_safeStep hs h

theorem reach_of_safe (hr : Runs.Reach (safeStep codec) init s) : Runs.Reach (step codec) init s :=
  hr.invariant .init fun _ _ e ht h => ht.step e (Option.filter_eq_some_iff.mp h).1

/-! ### A file with two names -/

/-- The identity has another name. -/
def Stuck (d : LinkDirectory Name) : Prop := ∃ i, d.lookup .identity = some i ∧ d.nlink i ≠ 1

theorem Stuck.refused (codec : HostCodec) (h : Stuck d) :
    readIdentity codec d = .error .agentState ∧ rejectExisting d = .error .alreadyEnrolled := by
  obtain ⟨i, hname, hlinks⟩ := h
  have hverify : verifyFile d .identity i = false := by simp [verifyFile, hname, hlinks]
  refine ⟨?_, by rw [rejectExisting, hname]; rfl⟩
  obtain ⟨inode, hfile⟩ := LinkDirectory.exists_file hname
  rw [readIdentity, hname]
  simp only [hfile, hverify, if_true]
  exact ite_self _

theorem stuck_step (hs : Stuck s.disk) (hphase : s.phase.out = true ∨ ∃ r, s.phase = .looking r)
    {e : Event} (h : s.step codec e = some s') :
    s'.disk = s.disk ∧ (s'.phase.out = true ∨ ∃ r, s'.phase = .looking r) := by
  have hreject := (hs.refused codec).2
  obtain ⟨disk, phase⟩ := s
  rcases hphase with hout | ⟨r, hlooking⟩
  · cases phase with
    | idle | ended =>
      cases e with
      | begin r =>
        cases h
        exact ⟨rfl, .inr ⟨r, rfl⟩⟩
      | _ => cases h
    | _ => cases hout
  · simp only at hlooking
    subst hlooking
    cases e with
    | go =>
      simp only at hreject
      simp only [step, go, hreject] at h
      cases h
      exact ⟨rfl, .inl rfl⟩
    | fail | die =>
      cases h
      exact ⟨rfl, .inl rfl⟩
    | _ => cases h

theorem stuck_of_reach (hinit : Stuck init.disk)
    (hout : init.phase.out = true) (hr : Runs.Reach (step codec) init s) : Stuck s.disk := by
  have h : Stuck s.disk ∧ (s.phase.out = true ∨ ∃ r, s.phase = .looking r) :=
    hr.invariant (P := fun t => Stuck t.disk ∧ (t.phase.out = true ∨ ∃ r, t.phase = .looking r))
      ⟨hinit, .inl hout⟩ fun t t' e ht hstep => by
      obtain ⟨hdisk, hphase⟩ := stuck_step ht.1 ht.2 hstep
      rw [hdisk]
      exact ⟨ht.1, hphase⟩
  exact h.1

/-! ### Where a call may end -/

def sampleCodec : HostCodec where
  json := Json.reader
  uuids := uuidReader
  managerUrl := fun url _ => some url

/-- An empty directory. -/
def sampleStart : Enrollment := ⟨⟨[], [], List.nodup_nil, by simp⟩, .idle⟩

def sampleRequest : Request :=
  { managerUrl := "https://desk.example".toList
    token := "token".toList
    name := "Desk".toList
    allowHttp := false }

/-- A call up to its hard link. -/
def sampleEvents : List Event :=
  [.begin sampleRequest, .go, .go, .go, .go, .go, .stage 7, .go,
    .answer ⟨List.replicate 32 0, rfl⟩ 5 "credential".toList, .go, .go, .go]

theorem sample_linked : ∃ s stored staging,
    Runs.tryRun (safeStep sampleCodec) sampleStart sampleEvents = some s ∧
      s.phase = .linked stored staging :=
  ⟨_, _, _, rfl, rfl⟩

/-- A call leaves a directory that can be recovered from if it ends in a safe phase: outside the two
steps between the hard link and the removal of the staging name, after a removal that has
succeeded, and with an identity of at most 64 KiB. -/
theorem enroll_crash_atomic (codec : HostCodec) {init s : Enrollment}
    (hout : init.phase.out = true) (hinit : Recoverable codec init.disk)
    (hr : Runs.Reach (safeStep codec) init s) :
    (s.phase.out = true → Recoverable codec s.disk) ∧
      ∀ e s', s.step codec e = some s' → s'.phase.out = true →
        (Recoverable codec s'.disk ↔ s.phase.safe = true) := by
  have hs := inv_of_reach codec hout hinit hr
  refine ⟨fun hend => (recoverable_iff hs).mpr ?_, fun e s' hstep hend => (spec_step hs hstep).2 hend⟩
  obtain ⟨disk, phase⟩ := s
  cases phase with
  | idle | ended => rfl
  | _ => cases hend

theorem enroll_crash_atomic_linked :
    ∃ s, Runs.Reach (safeStep sampleCodec) sampleStart s ∧
      ∃ s', s.step sampleCodec .die = some s' ∧ ¬ Recoverable sampleCodec s'.disk := by
  obtain ⟨s, stored, staging, hrun, hphase⟩ := sample_linked
  have hr := Runs.reach_of_tryRun .init hrun
  have hinit : Recoverable sampleCodec sampleStart.disk := recoverable_of_free sampleCodec rfl
  obtain ⟨-, hends⟩ := enroll_crash_atomic sampleCodec rfl hinit hr
  have hdie : s.step sampleCodec .die = some ⟨s.disk, .idle⟩ := by
    simp [step, hphase, Phase.out, next]
  refine ⟨s, hr, _, hdie, fun hrec => ?_⟩
  have hsafe := (hends .die _ hdie rfl).mp hrec
  rw [hphase] at hsafe
  cases hsafe

/-- The process dies behind the hard link: from then on the identity is refused whenever it is
read, and `enroll` refuses because there is one. -/
theorem crash_strands_identity :
    sampleStart.phase.out = true ∧ Recoverable sampleCodec sampleStart.disk ∧
      ∃ s, Runs.Reach (step sampleCodec) sampleStart s ∧ s.phase.out = true ∧
        ∀ t, Runs.Reach (step sampleCodec) s t →
          readIdentity sampleCodec t.disk = .error .agentState ∧
            rejectExisting t.disk = .error .alreadyEnrolled := by
  have hinit : Recoverable sampleCodec sampleStart.disk := recoverable_of_free sampleCodec rfl
  obtain ⟨s, stored, staging, hrun, hphase⟩ := sample_linked
  have hsafe := Runs.reach_of_tryRun .init hrun
  have hr := reach_of_safe hsafe
  have hs := inv_of_reach sampleCodec rfl hinit hsafe
  have hstuck : Stuck (⟨s.disk, .idle⟩ : Enrollment).disk := by
    unfold Inv at hs
    rw [hphase] at hs
    exact ⟨staging.file, hs.1.name, by rw [hs.1.nlink]; decide⟩
  have hdie : s.step sampleCodec .die = some ⟨s.disk, .idle⟩ := by
    simp [step, hphase, Phase.out, next]
  exact ⟨rfl, hinit, _, hr.step .die hdie, rfl, fun t ht => (stuck_of_reach hstuck rfl ht).refused _⟩

end Enrollment

end NebulaDesk
