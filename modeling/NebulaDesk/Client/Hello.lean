/-
The ticket inside the handshake (`nebula-manager/src/signing.rs`, `issue`;
`nebula-client/src/connect.rs`, `connect_to_agent`; `ndp-signal/src/direct.rs`, `SessionHello`).

A ticket is the JSON of its claims in base 64, between a header and a signature.  The client
wraps it into a `SessionHello` and sends that as the payload of the first handshake
message.  `ApplicationLaunch::validate` bounds the JSON of a launch configuration by 16 KiB,
the handshake bounds its payload by 4.

* **`hello_carried_iff`** — exactly how long the launch configuration of a ticket may be;
* **`long_path_stranded`** — a launch path that is accepted, and whose ticket is issued and
  can never be presented.
-/
import NebulaDesk.Common.Claims
import NebulaDesk.Crypto.Handshake
import NebulaDesk.Lib.Base64
import NebulaDesk.Manager.Api

namespace NebulaDesk

open Json

structure TicketKey where
  kid : Text
  signature : List UInt8 → List UInt8
  length_signature : ∀ message, (signature message).length = 64

namespace TicketKey

def header (key : TicketKey) : Text :=
  object [("typ".toList, string "JWT".toList), ("alg".toList, string "EdDSA".toList),
    ("kid".toList, string key.kid)]

/-- What is signed. -/
def message (key : TicketKey) (claims : SignedClaims) : Text :=
  Base64.encode key.header.bytes ++ '.' :: Base64.encode claims.json.bytes

/-- `TicketSigner::sign`. -/
def sign (key : TicketKey) (claims : SignedClaims) : Text :=
  key.message claims ++ '.' :: Base64.encode (key.signature (key.message claims).bytes)

/-- `TicketSigner::issue`. -/
def issue (codec : LaunchCodec) (key : TicketKey) (claims : SignedClaims) : Except ApiError Text :=
  if claims.launchTarget.validate codec claims.rid claims.policy then .ok (key.sign claims)
  else .error (.conflict "invalid application session authority")

end TicketKey

/-- Optional capabilities in the initial, encrypted handshake payload. -/
structure SessionHello where
  ticket : Text
  multipath : Bool
deriving DecidableEq

def SessionHello.json (hello : SessionHello) : Text :=
  object [("ticket".toList, string hello.ticket), ("multipath".toList, bool hello.multipath)]

/-- The payload `connect_to_agent` sends. -/
def clientHello (ticket : Text) : List UInt8 := (SessionHello.mk ticket true).json.bytes

/-- The claims of a session of an application, as `create` builds them. -/
def SignedClaims.forLaunch (codec : LaunchCodec) (claims : SignedClaims) (launch : ApplicationLaunch) :
    SignedClaims :=
  { claims with
    policy := applicationPolicy claims.policy
    launchTarget := .application claims.rid (launch.version codec) launch }

/-! ### Sizes -/

theorem plain_alphabet : Base64.alphabet.all (fun c => decide (escape c = [c])) = true := by
  decide

theorem utf8Size_alphabet : Base64.alphabet.all (fun c => c.utf8Size = 1) = true := by
  decide

theorem utf8Size_of_ascii {s : Text} (h : ∀ c ∈ s, c.utf8Size = 1) : utf8Size s = s.length := by
  rw [utf8Size, List.map_congr_left h, List.map_const', List.sum_replicate, smul_eq_mul, mul_one]

theorem utf8Size_encode (bytes : List UInt8) :
    utf8Size (Base64.encode bytes) = Base64.size bytes.length := by
  rw [utf8Size_of_ascii, Base64.length_encode]
  intro c hc
  exact of_decide_eq_true
    (List.all_eq_true.mp utf8Size_alphabet c (Base64.mem_alphabet_of_mem_encode hc))

variable {noise : NoiseIk} {key : TicketKey} {sha : Sha256} {claims : SignedClaims}
  {launch : ApplicationLaunch}

theorem plain_sign : ∀ c ∈ key.sign claims, escape c = [c] := by
  have hencode : ∀ {bytes : List UInt8} {c : Char}, c ∈ Base64.encode bytes → escape c = [c] := by
    intro bytes c hc
    exact of_decide_eq_true
      (List.all_eq_true.mp plain_alphabet c (Base64.mem_alphabet_of_mem_encode hc))
  have hdot : escape '.' = ['.'] := rfl
  intro c hc
  simp only [TicketKey.sign, TicketKey.message, List.mem_append, List.mem_cons] at hc
  rcases hc with (h | rfl | h) | rfl | h
  · exact hencode h
  · exact hdot
  · exact hencode h
  · exact hdot
  · exact hencode h

theorem utf8Size_sign : utf8Size (key.sign claims) =
    Base64.size (utf8Size key.header) + Base64.size (utf8Size claims.json) + 88 := by
  have hdot : '.'.utf8Size = 1 := rfl
  have hsignature : Base64.size 64 = 86 := rfl
  simp only [TicketKey.sign, TicketKey.message, utf8Size_append, utf8Size_cons, utf8Size_encode,
    length_bytes, key.length_signature, hdot, hsignature]
  omega

theorem length_clientHello : (clientHello (key.sign claims)).length =
    Base64.size (utf8Size key.header) + Base64.size (utf8Size claims.json) + 118 := by
  have hticket : utf8Size (string "ticket".toList) = 8 := rfl
  have hmultipath : utf8Size (string "multipath".toList) = 11 := rfl
  have htrue : utf8Size (bool true) = 4 := rfl
  rw [clientHello, length_bytes, SessionHello.json, utf8Size_object]
  simp only [List.map_cons, List.map_nil, List.sum_cons, List.sum_nil, List.length_cons,
    List.length_nil, hticket, hmultipath, htrue, utf8Size_string_of_plain plain_sign,
    utf8Size_sign]
  omega

theorem issue_forLaunch (hvalid : launch.validate (serde sha) = true) :
    key.issue (serde sha) (claims.forLaunch (serde sha) launch) =
      .ok (key.sign (claims.forLaunch (serde sha) launch)) := by
  refine if_pos ?_
  show (LaunchTarget.application claims.rid (launch.version (serde sha)) launch).validate
    (serde sha) claims.rid (applicationPolicy claims.policy) = true
  rw [LaunchTarget.validate_application, hvalid]

theorem carried_clientHello_iff : noise.Carried (clientHello
      (key.sign (claims.forLaunch (serde sha) launch))) ↔
    4 * ((claims.forLaunch (serde sha) launch).overhead + utf8Size launch.json) ≤
      3 * (3978 - Base64.size (utf8Size key.header)) := by
  have hjson : utf8Size (claims.forLaunch (serde sha) launch).json =
      (claims.forLaunch (serde sha) launch).overhead + utf8Size launch.json :=
    utf8Size_json rfl
  have hpositive : 536 ≤ (claims.forLaunch (serde sha) launch).overhead := by
    unfold SignedClaims.overhead
    omega
  rw [NoiseIk.carried_iff, length_clientHello, hjson, ← Base64.size_le_iff]
  -- What is left of the payload; nothing is, if the header alone is too long.
  unfold maxHandshakePayload Base64.size
  omega

/-- A ticket is issued for every launch configuration that validates, and it reaches the agent
exactly if the JSON of the configuration, with the rest of the claims, leaves room for
base 64, the header, the signature and the hello. -/
theorem hello_carried_iff (noise : NoiseIk) (key : TicketKey) (claims : SignedClaims)
    (hvalid : launch.validate (serde sha) = true) :
    ∃ ticket, key.issue (serde sha) (claims.forLaunch (serde sha) launch) = .ok ticket ∧
      (noise.Carried (clientHello ticket) ↔
        4 * ((claims.forLaunch (serde sha) launch).overhead + utf8Size launch.json) ≤
          3 * (3978 - Base64.size (utf8Size key.header))) :=
  ⟨_, issue_forLaunch hvalid, carried_clientHello_iff⟩

/-! ### A short launch and a long path -/

/-- SHA-256 of the JSON of `sampleLaunch`; other texts are not looked at. -/
def sampleSha : Sha256 where
  digest := sampleLaunchCodec.digest
  length_digest := sampleLaunchCodec.length_digest
  hex_digest := sampleLaunchCodec.hex_digest

/-- Ninety-six bytes before the payload. -/
def sampleNoise : NoiseIk where
  writeMessage payload := List.replicate 96 0 ++ payload
  readMessage message := some (message.drop 96)
  length_writeMessage := by
    intro payload
    rw [List.length_append, List.length_replicate]
    omega
  readMessage_writeMessage := by
    intro payload
    rfl

/-- The signature under the first key of the ticket of `sampleSigned` for `sampleLaunch`. -/
def sampleTicketKey : TicketKey where
  kid := "d75a980182b10ab7".toList
  signature _ :=
    [0x9d, 0x1e, 0xbb, 0xb7, 0x90, 0x7d, 0xcb, 0xc9, 0x94, 0xe0, 0x30, 0x62, 0x7e, 0x57, 0xda, 0xe2,
      0x62, 0xee, 0x86, 0x28, 0x02, 0xc0, 0xe5, 0x52, 0x84, 0xa1, 0x2c, 0xc1, 0x72, 0x3c, 0xfe, 0xfa,
      0xd7, 0x78, 0x76, 0xa9, 0x7c, 0x90, 0x9e, 0xab, 0xe7, 0x80, 0xef, 0x89, 0xa9, 0xfa, 0x7e, 0xc3,
      0x2a, 0x30, 0x43, 0x95, 0x4f, 0x8d, 0xba, 0xbf, 0xe3, 0x19, 0x6b, 0xc8, 0xeb, 0x16, 0x5a, 0x05]
  length_signature := fun _ => rfl

def sampleSigned : SignedClaims where
  jti := 1
  iat := 10
  exp := 70
  sid := 1
  tid := 1
  uid := 1
  mid := 1
  rid := 1
  role := .controller
  policy := .full
  launchTarget := .desktop
  iss := "http://manager.test".toList
  aud := audience
  agentKey := List.replicate 64 'a'
  relayAddr := "127.0.0.1:4443".toList
  relayPin := List.replicate 64 'b'

theorem hello_carried_sample :
    ∃ ticket, sampleTicketKey.issue (serde sampleSha)
        (sampleSigned.forLaunch (serde sampleSha) sampleLaunch) = .ok ticket ∧
      sampleNoise.Carried (clientHello ticket) := by
  have hvalid : sampleLaunch.validate (serde sampleSha) = true := by decide +kernel
  obtain ⟨ticket, hissue, hcarried⟩ := hello_carried_iff sampleNoise sampleTicketKey sampleSigned hvalid
  exact ⟨ticket, hissue, hcarried.mpr (by decide +kernel)⟩

/-- An absolute path of 4,000 bytes, and no arguments. -/
def longLaunch : ApplicationLaunch where
  launchPath := '/' :: List.replicate 3999 'a'
  launchArgs := []
  workingDir := none

theorem mem_longLaunch {c : Char} (h : c ∈ longLaunch.launchPath) : c = '/' ∨ c = 'a' := by
  rcases List.mem_cons.mp h with rfl | h
  · exact .inl rfl
  · exact .inr (List.eq_of_mem_replicate h)

theorem utf8Size_longPath : utf8Size longLaunch.launchPath = 4000 := by
  rw [utf8Size_of_ascii]
  · rw [longLaunch, List.length_cons, List.length_replicate]
  · intro c hc
    rcases mem_longLaunch hc with rfl | rfl <;> rfl

theorem utf8Size_longLaunch : utf8Size longLaunch.json = 4054 := by
  have hkeys : ["launch_path", "launch_args", "working_dir"].map
      (fun key => utf8Size (string key.toList)) = [13, 13, 13] := rfl
  simp only [List.map_cons, List.map_nil, List.cons.injEq] at hkeys
  have hnull : utf8Size null = 4 := rfl
  have hargs : longLaunch.launchArgs = [] := rfl
  have hdir : longLaunch.workingDir = none := rfl
  have hpath : utf8Size (string longLaunch.launchPath) = 4002 := by
    rw [utf8Size_string_of_plain, utf8Size_longPath]
    intro c hc
    rcases mem_longLaunch hc with rfl | rfl <;> rfl
  obtain ⟨hkey, hargsKey, hdirKey, -⟩ := hkeys
  rw [ApplicationLaunch.json, utf8Size_object, hargs, hdir]
  simp only [List.map_cons, List.map_nil, List.sum_cons, List.sum_nil, List.length_cons,
    List.length_nil, hpath, utf8Size_array, Option.map_none, Option.getD_none, hnull, hkey,
    hargsKey, hdirKey]
  norm_num

theorem validate_longLaunch (sha : Sha256) : longLaunch.validate (serde sha) = true := by
  have hlen : Text.len longLaunch.launchPath = 4000 := utf8Size_longPath
  have hjson : ((serde sha).json longLaunch).length = 4054 := by
    rw [← utf8Size_longLaunch]
    exact length_bytes _
  have habsolute : absolute longLaunch.launchPath = true := rfl
  have hnul : '\x00' ∉ longLaunch.launchPath := by
    intro h
    rcases mem_longLaunch h with h | h <;> exact absurd h (by decide)
  have hargs : longLaunch.launchArgs = [] := rfl
  have hdir : longLaunch.workingDir = none := rfl
  simp [ApplicationLaunch.validate, boundedText, habsolute, hlen, hnul, hjson, hargs, hdir]

theorem long_path_refused (noise : NoiseIk) (key : TicketKey) (sha : Sha256)
    (claims : SignedClaims) :
    ∃ ticket, key.issue (serde sha) (claims.forLaunch (serde sha) longLaunch) = .ok ticket ∧
      ¬ noise.Carried (clientHello ticket) := by
  refine ⟨_, issue_forLaunch (validate_longLaunch sha), ?_⟩
  rw [carried_clientHello_iff, utf8Size_longLaunch]
  omega

/-- The path is accepted and a ticket for it issued, and no agent can ever be sent it. -/
theorem long_path_stranded :
    longLaunch.validate (serde sampleSha) = true ∧
      ∃ ticket, sampleTicketKey.issue (serde sampleSha)
          (sampleSigned.forLaunch (serde sampleSha) longLaunch) = .ok ticket ∧
        ¬ sampleNoise.Carried (clientHello ticket) :=
  ⟨validate_longLaunch sampleSha,
    long_path_refused sampleNoise sampleTicketKey sampleSha sampleSigned⟩

end NebulaDesk
