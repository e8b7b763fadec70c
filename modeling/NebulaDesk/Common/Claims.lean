/-
The claims of a ticket as `serde_json` writes them (`nebula-common/src/ticket.rs`,
`nebula-common/src/application.rs`, `nebula-common/src/ids.rs`).

* **`utf8Size_json`** — the size of a ticket for an application is that of its launch
  configuration and `overhead`, which the launch configuration has no part in.
-/
import NebulaDesk.Common.Ticket
import NebulaDesk.Lib.Json

namespace NebulaDesk

open Json

/-- A UUID as it is displayed: 32 hexadecimal digits and four hyphens. -/
def uuid (id : ℕ) : Text :=
  let digits := fun a n => (List.range' a n).map fun i => hexDigit (id / 16 ^ (31 - i) % 16)
  digits 0 8 ++ '-' :: (digits 8 4 ++ '-' :: (digits 12 4 ++ '-' :: (digits 16 4 ++
    '-' :: digits 20 12)))

/-- `AUDIENCE`. -/
def audience : Text := "nebula-gateway".toList

/-- The claims of a ticket, with those that only its verifiers read. -/
structure SignedClaims extends TicketClaims where
  /-- Issuer, the manager's public base URL. -/
  iss : Text
  aud : Text
  /-- The agent's Noise static public key, hex encoded. -/
  agentKey : Text
  /-- QUIC address of the relay chosen for this session. -/
  relayAddr : Text
  /-- Certificate pin for that relay. -/
  relayPin : Text
deriving DecidableEq

def SessionRole.json : SessionRole → Text
  | viewer => string "VIEWER".toList
  | controller => string "CONTROLLER".toList
  | admin => string "ADMIN".toList

def SessionPolicy.json (policy : SessionPolicy) : Text :=
  object [("clipboard".toList, bool policy.clipboard),
    ("file_transfer".toList, bool policy.fileTransfer), ("audio".toList, bool policy.audio),
    ("input".toList, bool policy.input)]

def ApplicationLaunch.json (launch : ApplicationLaunch) : Text :=
  object [("launch_path".toList, string launch.launchPath),
    ("launch_args".toList, array (launch.launchArgs.map string)),
    ("working_dir".toList, (launch.workingDir.map string).getD null)]

example : sampleLaunch.json.bytes = sampleJson := by decide

def LaunchTarget.json : LaunchTarget → Text
  | desktop => object [("kind".toList, string "desktop".toList)]
  | application resourceId version launch =>
    object [("kind".toList, string "application".toList),
      ("resource_id".toList, string (uuid resourceId)), ("version".toList, string version),
      ("launch".toList, launch.json)]

def SignedClaims.json (claims : SignedClaims) : Text :=
  object [("iss".toList, string claims.iss), ("aud".toList, string claims.aud),
    ("jti".toList, string (uuid claims.jti)), ("iat".toList, int claims.iat),
    ("exp".toList, int claims.exp), ("sid".toList, string (uuid claims.sid)),
    ("tid".toList, string (uuid claims.tid)), ("uid".toList, string (uuid claims.uid)),
    ("mid".toList, string (uuid claims.mid)), ("rid".toList, string (uuid claims.rid)),
    ("role".toList, claims.role.json), ("policy".toList, claims.policy.json),
    ("launch_target".toList, claims.launchTarget.json),
    ("agent_key".toList, string claims.agentKey), ("relay_addr".toList, string claims.relayAddr),
    ("relay_pin".toList, string claims.relayPin)]

structure Sha256 where
  digest : List UInt8 → Text
  length_digest : ∀ bytes, (digest bytes).length = 64
  hex_digest : ∀ bytes, ∀ c ∈ digest bytes, c.isDigit ∨ c ∈ ['a', 'b', 'c', 'd', 'e', 'f']

/-- `serde_json` and SHA-256. -/
def serde (sha : Sha256) : LaunchCodec where
  json launch := launch.json.bytes
  digest := sha.digest
  length_digest := sha.length_digest
  hex_digest := sha.hex_digest

/-! ### Sizes -/

theorem length_bytes (t : Text) : t.bytes.length = utf8Size t := length_utf8Encode t

theorem plain_hexDigit {n : ℕ} (h : n < 16) : escape (hexDigit n) = [hexDigit n] := by
  interval_cases n <;> rfl

theorem plain_uuid (id : ℕ) : ∀ c ∈ uuid id, escape c = [c] := by
  have hdigit : ∀ {a n : ℕ} {c : Char},
      c ∈ (List.range' a n).map (fun i => hexDigit (id / 16 ^ (31 - i) % 16)) → escape c = [c] := by
    intro a n c h
    obtain ⟨i, -, rfl⟩ := List.mem_map.mp h
    exact plain_hexDigit (Nat.mod_lt _ (by decide))
  have hhyphen : escape '-' = ['-'] := rfl
  intro c hc
  simp only [uuid, List.mem_append, List.mem_cons] at hc
  rcases hc with h | rfl | h | rfl | h | rfl | h | rfl | h
  all_goals first | exact hdigit h | exact hhyphen

theorem utf8Size_uuid (id : ℕ) : utf8Size (uuid id) = 36 := by
  have hdigits : ∀ a n : ℕ,
      utf8Size ((List.range' a n).map fun i => hexDigit (id / 16 ^ (31 - i) % 16)) = n := by
    intro a n
    induction n generalizing a with
    | zero => rfl
    | succ n ih =>
      rw [List.range'_succ, List.map_cons, utf8Size_cons, ih,
        utf8Size_hexDigit (Nat.mod_lt _ (by decide))]
      omega
  have hhyphen : '-'.utf8Size = 1 := rfl
  simp only [uuid, utf8Size_append, utf8Size_cons, hdigits, hhyphen]

theorem utf8Size_string_uuid (id : ℕ) : utf8Size (string (uuid id)) = 38 := by
  rw [utf8Size_string_of_plain (plain_uuid id), utf8Size_uuid]

theorem plain_digest (sha : Sha256) (bytes : List UInt8) :
    ∀ c ∈ sha.digest bytes, escape c = [c] := by
  intro c hc
  rcases sha.hex_digest bytes c hc with hdigit | hletter
  · have hrange : 48 ≤ c.toNat ∧ c.toNat ≤ 57 := by
      simp only [Char.isDigit, ge_iff_le, Bool.and_eq_true, decide_eq_true_eq] at hdigit
      exact hdigit
    refine escape_of_plain (by omega) ?_ ?_
    · rintro rfl
      exact absurd hrange (by decide)
    · rintro rfl
      exact absurd hrange (by decide)
  · fin_cases hletter <;> rfl

theorem utf8Size_string_digest (sha : Sha256) (bytes : List UInt8) :
    utf8Size (string (sha.digest bytes)) = 66 := by
  have hlen : utf8Size (sha.digest bytes) = 64 := @len_digest (serde sha) bytes
  rw [utf8Size_string_of_plain (plain_digest sha bytes), hlen]

/-- What the claims take besides the launch configuration of an application: the keys and the
punctuation, six ids, the kind and the version of the target, and the other claims. -/
def SignedClaims.overhead (claims : SignedClaims) : ℕ :=
  536 + utf8Size (string claims.iss) + utf8Size (string claims.aud) + utf8Size (int claims.iat) +
    utf8Size (int claims.exp) + utf8Size claims.role.json + utf8Size claims.policy.json +
    utf8Size (string claims.agentKey) + utf8Size (string claims.relayAddr) +
    utf8Size (string claims.relayPin)

theorem utf8Size_keys :
    ["iss", "aud", "jti", "iat", "exp", "sid", "tid", "uid", "mid", "rid", "role", "policy",
      "launch_target", "agent_key", "relay_addr", "relay_pin", "kind", "resource_id", "version",
      "launch", "application"].map (fun key => utf8Size (string key.toList)) =
      [5, 5, 5, 5, 5, 5, 5, 5, 5, 5, 6, 8, 15, 11, 12, 11, 6, 13, 9, 8, 13] := by
  rfl

theorem utf8Size_json {sha : Sha256} {claims : SignedClaims} {resource : ℕ}
    {launch : ApplicationLaunch}
    (h : claims.launchTarget = .application resource (launch.version (serde sha)) launch) :
    utf8Size claims.json = claims.overhead + utf8Size launch.json := by
  have hversion : utf8Size (string (launch.version (serde sha))) = 66 :=
    utf8Size_string_digest sha _
  have hkeys := utf8Size_keys
  simp only [List.map_cons, List.map_nil, List.cons.injEq] at hkeys
  rw [SignedClaims.json, h, LaunchTarget.json]
  simp only [utf8Size_object, List.map_cons, List.map_nil, List.sum_cons, List.sum_nil,
    List.length_cons, List.length_nil, utf8Size_string_uuid, hversion]
  unfold SignedClaims.overhead
  omega

end NebulaDesk
