/-
Address candidates as a control message (`ndp-proto/src/control.rs`).

The message travels as JSON.  `PathCandidates.value` is what it is serialised as, and
`PathCandidates.ofValue` what is deserialised: a field that is not named there is passed over.

* **`PathCandidates.ofValue_value`** — a serialised message is deserialised as it.
-/
import NebulaDesk.Lib.JsonValue
import NebulaDesk.Proto.Surface

namespace NebulaDesk

open Json (Value)

inductive CandidateKind
  /-- A local interface address. -/
  | host
  /-- The address the relay observed. -/
  | serverReflexive
deriving DecidableEq

/-- A transport address offered for the optional direct path. -/
structure PathCandidate where
  /-- `ip:port` in standard textual form. -/
  addr : Text
  kind : CandidateKind
  /-- Higher wins when several candidates succeed. -/
  priority : UInt32
deriving DecidableEq

/-- Authenticated metadata for the session's direct listener. -/
structure DirectPathBinding where
  version : UInt8
  session : Text
  listener : Text
  certificatePin : Text
deriving DecidableEq

/-- `ControlMessage::PathCandidates`. -/
structure PathCandidates where
  candidates : List PathCandidate
  directBinding : Option DirectPathBinding
deriving DecidableEq

def CandidateKind.name : CandidateKind → Text
  | host => "host".toList
  | serverReflexive => "server_reflexive".toList

def CandidateKind.value (kind : CandidateKind) : Value := .string kind.name

def PathCandidate.value (candidate : PathCandidate) : Value :=
  .object [("addr".toList, .string candidate.addr), ("kind".toList, candidate.kind.value),
    ("priority".toList, .number candidate.priority.toNat)]

def DirectPathBinding.value (binding : DirectPathBinding) : Value :=
  .object [("version".toList, .number binding.version.toNat),
    ("session".toList, .string binding.session), ("listener".toList, .string binding.listener),
    ("certificate_pin".toList, .string binding.certificatePin)]

def PathCandidates.value (message : PathCandidates) : Value :=
  .object (("t".toList, .string "path_candidates".toList) ::
    ("candidates".toList, .array (message.candidates.map PathCandidate.value)) ::
    -- a missing binding is not written
    (message.directBinding.map fun binding => ("direct_binding".toList, binding.value)).toList)

def CandidateKind.ofValue (v : Value) : Option CandidateKind := do
  let name ← v.asString
  if name = host.name then some host
  else if name = serverReflexive.name then some serverReflexive
  else none

def PathCandidate.ofValue (v : Value) : Option PathCandidate := do
  let fields ← v.asObject
  let addr ← (← Json.required fields "addr".toList).asString
  let kind ← CandidateKind.ofValue (← Json.required fields "kind".toList)
  let priority ← (← Json.required fields "priority".toList).asNumber (2 ^ 32)
  some ⟨addr, kind, UInt32.ofNat priority⟩

def DirectPathBinding.ofValue (v : Value) : Option DirectPathBinding := do
  let fields ← v.asObject
  let version ← (← Json.required fields "version".toList).asNumber (2 ^ 8)
  let session ← (← Json.required fields "session".toList).asString
  let listener ← (← Json.required fields "listener".toList).asString
  let certificatePin ← (← Json.required fields "certificate_pin".toList).asString
  some ⟨UInt8.ofNat version, session, listener, certificatePin⟩

/-- The message, if the tag is that of this one. -/
def PathCandidates.ofValue (v : Value) : Option PathCandidates := do
  let fields ← v.asObject
  let t ← (← Json.required fields "t".toList).asString
  if t = "path_candidates".toList then
    let items ← (← Json.required fields "candidates".toList).asArray
    let candidates ← items.mapM PathCandidate.ofValue
    match ← Json.member fields "direct_binding".toList with
    | none => some ⟨candidates, none⟩
    | some .null => some ⟨candidates, none⟩
    | some v => do
      let binding ← DirectPathBinding.ofValue v
      some ⟨candidates, some binding⟩
  else none

/-! ### A message is deserialised as it was -/

theorem CandidateKind.ofValue_value (kind : CandidateKind) : ofValue kind.value = some kind := by
  cases kind <;> rfl

theorem PathCandidate.ofValue_value (candidate : PathCandidate) :
    ofValue candidate.value = some candidate := by
  unfold ofValue value
  generalize hfields : [("addr".toList, Value.string candidate.addr),
    ("kind".toList, candidate.kind.value),
    ("priority".toList, .number candidate.priority.toNat)] = fields
  have haddr : Json.required fields "addr".toList = some (.string candidate.addr) := by
    simp [← hfields, Json.required, Json.member]
  have hkind : Json.required fields "kind".toList = some candidate.kind.value := by
    simp [← hfields, Json.required, Json.member]
  have hpriority : Json.required fields "priority".toList =
      some (.number candidate.priority.toNat) := by
    simp [← hfields, Json.required, Json.member]
  simp only [Value.asObject, Option.bind_eq_bind, Option.bind_some, haddr, hkind, hpriority,
    Value.asString, CandidateKind.ofValue_value, Value.asNumber_of_lt candidate.priority.toNat_lt,
    UInt32.ofNat_toNat]

theorem DirectPathBinding.ofValue_value (binding : DirectPathBinding) :
    ofValue binding.value = some binding := by
  unfold ofValue value
  generalize hfields : [("version".toList, Value.number binding.version.toNat),
    ("session".toList, .string binding.session), ("listener".toList, .string binding.listener),
    ("certificate_pin".toList, .string binding.certificatePin)] = fields
  have hversion : Json.required fields "version".toList =
      some (.number binding.version.toNat) := by
    simp [← hfields, Json.required, Json.member]
  have hsession : Json.required fields "session".toList = some (.string binding.session) := by
    simp [← hfields, Json.required, Json.member]
  have hlistener : Json.required fields "listener".toList = some (.string binding.listener) := by
    simp [← hfields, Json.required, Json.member]
  have hpin : Json.required fields "certificate_pin".toList =
      some (.string binding.certificatePin) := by
    simp [← hfields, Json.required, Json.member]
  simp only [Value.asObject, Option.bind_eq_bind, Option.bind_some, hversion, hsession, hlistener,
    hpin, Value.asString, Value.asNumber_of_lt binding.version.toNat_lt, UInt8.ofNat_toNat]

theorem PathCandidates.ofValue_value (message : PathCandidates) :
    ofValue message.value = some message := by
  have hcandidates : (message.candidates.map PathCandidate.value).mapM PathCandidate.ofValue =
      some message.candidates := by
    induction message.candidates with
    | nil => rfl
    | cons candidate rest ih =>
      rw [List.map_cons, List.mapM_cons, PathCandidate.ofValue_value, ih]
      rfl
  unfold ofValue value
  generalize hfields : ("t".toList, Value.string "path_candidates".toList) ::
    ("candidates".toList, Value.array (message.candidates.map PathCandidate.value)) ::
    (message.directBinding.map fun binding =>
      ("direct_binding".toList, binding.value)).toList = fields
  have ht : Json.required fields "t".toList = some (.string "path_candidates".toList) := by
    cases hb : message.directBinding <;> simp [← hfields, hb, Json.required, Json.member]
  have hitems : Json.required fields "candidates".toList =
      some (.array (message.candidates.map PathCandidate.value)) := by
    cases hb : message.directBinding <;> simp [← hfields, hb, Json.required, Json.member]
  have hbinding : Json.member fields "direct_binding".toList =
      some (message.directBinding.map DirectPathBinding.value) := by
    cases hb : message.directBinding <;> simp [← hfields, hb, Json.member]
  simp only [Value.asObject, Option.bind_eq_bind, Option.bind_some, ht, hitems, hbinding,
    Value.asString, Value.asArray, hcandidates, if_true]
  obtain ⟨candidates, binding⟩ := message
  cases binding with
  | none => rfl
  | some binding =>
    have hof := DirectPathBinding.ofValue_value binding
    obtain ⟨bound, hobject⟩ : ∃ bound, binding.value = .object bound := ⟨_, rfl⟩
    rw [hobject] at hof
    simp only [Option.map_some, hobject, hof, Option.bind_some]

end NebulaDesk
