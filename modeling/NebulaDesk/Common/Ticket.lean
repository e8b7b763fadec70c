/-
Session tickets and application launches (`nebula-common/src/ticket.rs`,
`nebula-common/src/application.rs`).

What the manager signs, the gateway redeems and the agent enforces.
-/
import NebulaDesk.Proto.Transfer

namespace NebulaDesk

/-- How long a freshly minted ticket stays usable, in seconds. -/
def defaultTtl : ℤ := 60

def clockSkew : ℤ := 30

/-- What a session may do, resolved from the entitlement at issue time. -/
structure SessionPolicy where
  clipboard : Bool
  fileTransfer : Bool
  audio : Bool
  input : Bool
deriving DecidableEq, Repr

namespace SessionPolicy

/-- The safe default: watch only. -/
def viewOnly : SessionPolicy := ⟨false, false, false, false⟩

def full : SessionPolicy := ⟨true, true, true, true⟩

/-- Nothing is permitted that the other does not permit. -/
def within (p ceiling : SessionPolicy) : Prop :=
  (p.clipboard → ceiling.clipboard) ∧ (p.fileTransfer → ceiling.fileTransfer) ∧
    (p.audio → ceiling.audio) ∧ (p.input → ceiling.input)

instance (p ceiling : SessionPolicy) : Decidable (p.within ceiling) :=
  inferInstanceAs (Decidable (_ ∧ _))

end SessionPolicy

inductive SessionRole
  | viewer
  | controller
  | admin
deriving DecidableEq, Repr

def SessionRole.maxPolicy : SessionRole → SessionPolicy
  | viewer => .viewOnly
  | controller | admin => .full

/-- No global clipboard, system audio or filesystem transfer in application
sessions. -/
def applicationPolicy (policy : SessionPolicy) : SessionPolicy := ⟨false, false, false, policy.input⟩

@[simp] theorem applicationPolicy_idem (policy : SessionPolicy) :
    applicationPolicy (applicationPolicy policy) = applicationPolicy policy := rfl

/-- A publisher-configured executable and argv. -/
structure ApplicationLaunch where
  launchPath : Text
  launchArgs : List Text
  workingDir : Option Text
deriving DecidableEq

/-- `serde_json` and SHA-256, hex encoded. -/
structure LaunchCodec where
  json : ApplicationLaunch → List UInt8
  digest : List UInt8 → Text
  length_digest : ∀ bytes, (digest bytes).length = 64
  hex_digest : ∀ bytes, ∀ c ∈ digest bytes, c.isDigit ∨ c ∈ ['a', 'b', 'c', 'd', 'e', 'f']

def absolute (s : Text) : Bool :=
  s.head? = some '/' || ['\\', '\\'].isPrefixOf s ||
    (s.bytes[1]? = some 58 &&
      s.bytes.head?.any (fun b => (65 ≤ b && b ≤ 90) || (97 ≤ b && b ≤ 122)) &&
      (s.bytes[2]? = some 92 || s.bytes[2]? = some 47))

def boundedText (s : Text) : Bool := s.len ≤ 4096 && '\x00' ∉ s

namespace ApplicationLaunch

/-- Content version bound into the signed session target. -/
def version (codec : LaunchCodec) (launch : ApplicationLaunch) : Text :=
  codec.digest (codec.json launch)

/-- Bound resource size and reject NUL and relative executable paths. -/
def validate (codec : LaunchCodec) (launch : ApplicationLaunch) : Bool :=
  absolute launch.launchPath && boundedText launch.launchPath &&
    launch.launchArgs.length ≤ 64 && launch.launchArgs.all boundedText &&
    (launch.launchArgs.map Text.len).sum ≤ 16 * 1024 &&
    launch.workingDir.all (fun s => absolute s && boundedText s) &&
    (codec.json launch).length ≤ 16 * 1024

end ApplicationLaunch

/-- Signed immutable authority for the lifetime of one logical session. -/
inductive LaunchTarget
  | desktop
  | application (resourceId : ℕ) (version : Text) (launch : ApplicationLaunch)
deriving DecidableEq

namespace LaunchTarget

def isApplication : LaunchTarget → Bool
  | desktop => false
  | application .. => true

def isHexDigit (c : Char) : Bool :=
  c.isDigit || ('a' ≤ c && c ≤ 'f') || ('A' ≤ c && c ≤ 'F')

/-- Check resource binding and the policy ceiling before opening a session. -/
def validate (codec : LaunchCodec) (resource : ℕ) (policy : SessionPolicy) : LaunchTarget → Bool
  | desktop => true
  | application resourceId version launch =>
    resourceId = resource && version.len = 64 && version.all isHexDigit &&
      version = launch.version codec && policy = applicationPolicy policy && launch.validate codec

end LaunchTarget

inductive ApplicationUnavailableReason
  | unsupportedPlatform
  | backendUnavailable
  | permissionDenied
  | isolationUnavailable
deriving DecidableEq, Repr

/-- Runtime backend advertisement of a machine. -/
structure ApplicationCapability where
  supported : Bool
  protocolVersion : ℕ
  maxSurfaces : ℕ
  globalMenuSupported : Bool
  reason : Option ApplicationUnavailableReason
deriving DecidableEq, Repr

namespace ApplicationCapability

/-- What an absent or malformed advertisement is read as. -/
def unavailable : ApplicationCapability where
  supported := false
  protocolVersion := applicationProtocolVersion
  maxSurfaces := 0
  globalMenuSupported := false
  reason := some .backendUnavailable

/-- Reject partial, contradictory, unknown-version or excessive advertisements. -/
def isSupported (c : ApplicationCapability) : Bool :=
  c.supported && c.protocolVersion = applicationProtocolVersion &&
    (1 ≤ c.maxSurfaces && c.maxSurfaces ≤ maxApplicationSurfaces) && c.reason.isNone

end ApplicationCapability

structure TicketClaims where
  /-- Unique ticket id, so a gateway can refuse a replayed ticket. -/
  jti : ℕ
  /-- Issued at, Unix seconds. -/
  iat : ℤ
  /-- Expiry, Unix seconds. -/
  exp : ℤ
  sid : ℕ
  tid : ℕ
  uid : ℕ
  mid : ℕ
  rid : ℕ
  role : SessionRole
  policy : SessionPolicy
  launchTarget : LaunchTarget
deriving DecidableEq

namespace TicketClaims

/-- Whether the ticket is currently valid, allowing for clock skew. -/
def isValidAt (claims : TicketClaims) (now : ℤ) : Bool :=
  claims.iat - clockSkew ≤ now && now < claims.exp + clockSkew

end TicketClaims

/-! ### A target of the manager passes its own check -/

variable {codec : LaunchCodec}

theorem isHexDigit_of_digest (bytes : List UInt8) {c : Char}
    (h : c ∈ codec.digest bytes) : LaunchTarget.isHexDigit c = true := by
  unfold LaunchTarget.isHexDigit
  rcases codec.hex_digest bytes c h with hd | hx
  · simp [hd]
  · have hcase : ∀ x ∈ ['a', 'b', 'c', 'd', 'e', 'f'],
        (x.isDigit || ('a' ≤ x && x ≤ 'f') || ('A' ≤ x && x ≤ 'F')) = true :=
      List.all_eq_true.mp (by decide)
    exact hcase c hx

theorem len_digest (bytes : List UInt8) : (codec.digest bytes).len = 64 := by
  have hone : ∀ c ∈ codec.digest bytes, c.utf8Size = 1 := by
    intro c hc
    rcases codec.hex_digest bytes c hc with hd | hx
    · refine Char.utf8Size_eq_one_iff.mpr ?_
      simp only [Char.isDigit, ge_iff_le, Bool.and_eq_true, decide_eq_true_eq] at hd
      exact UInt32.le_trans hd.2 (by decide)
    · have hcase : ∀ x ∈ ['a', 'b', 'c', 'd', 'e', 'f'], x.utf8Size = 1 := by
        intro x hx
        fin_cases hx <;> rfl
      exact hcase c hx
  rw [Text.len, List.map_congr_left hone, List.map_const', List.sum_replicate,
    codec.length_digest, smul_eq_mul]

/-- What `launch_target` builds, under the policy of an application session, is a
target that every verifier accepts if and only if its launch validates. -/
theorem LaunchTarget.validate_application {resource : ℕ}
    {policy : SessionPolicy} {launch : ApplicationLaunch} :
    (LaunchTarget.application resource (launch.version codec) launch).validate codec resource
      (applicationPolicy policy) = launch.validate codec := by
  have hhex : (launch.version codec).all isHexDigit = true := by
    rw [List.all_eq_true]
    intro c hc
    exact isHexDigit_of_digest _ hc
  have hlen : (launch.version codec).len = 64 := len_digest _
  simp [LaunchTarget.validate, hhex, hlen]

/-! ### One launch, as `serde_json` writes it and SHA-256 hashes it -/

def sampleLaunch : ApplicationLaunch where
  launchPath := "/usr/bin/gedit".toList
  launchArgs := ["--new-window".toList]
  workingDir := none

def sampleJson : List UInt8 :=
  [123, 34, 108, 97, 117, 110, 99, 104, 95, 112, 97, 116, 104, 34, 58, 34, 47, 117, 115, 114,
    47, 98, 105, 110, 47, 103, 101, 100, 105, 116, 34, 44, 34, 108, 97, 117, 110, 99, 104, 95,
    97, 114, 103, 115, 34, 58, 91, 34, 45, 45, 110, 101, 119, 45, 119, 105, 110, 100, 111, 119,
    34, 93, 44, 34, 119, 111, 114, 107, 105, 110, 103, 95, 100, 105, 114, 34, 58, 110, 117, 108,
    108, 125]

def sampleVersion : Text :=
  "55c08cc7fe73fc0c3a4288349a7542c1b6f8617039d07fc54c6d01a437793826".toList

def sampleLaunchCodec : LaunchCodec where
  json launch := if launch = sampleLaunch then sampleJson else []
  digest bytes := if bytes = sampleJson then sampleVersion else List.replicate 64 '0'
  length_digest := by
    intro bytes
    split
    · decide
    · exact List.length_replicate
  hex_digest := by
    intro bytes c hc
    split at hc
    · have hall : sampleVersion.all (fun x => x.isDigit || x ∈ ['a', 'b', 'c', 'd', 'e', 'f']) = true := by
        decide
      have hhex := List.all_eq_true.mp hall c hc
      rwa [Bool.or_eq_true, decide_eq_true_eq] at hhex
    · rw [List.eq_of_mem_replicate hc]
      exact .inl (by decide)

example : sampleLaunch.validate sampleLaunchCodec = true := by decide

end NebulaDesk
