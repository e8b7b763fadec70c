/-
The ticket signing key (`nebula-manager/src/signing.rs`).

Every manager replica loads the oldest active key and creates one if there is none.
The replicas run against one `signing_keys` table: a row takes its `created_at` when
its insert starts and is visible from its commit on.

* **`replicas_agree`** — every two replicas that have returned sign with one key, as
  long as no insert that commits after the first return started before all visible
  rows, and no two inserts started at the same time;
* **`replicas_disagree`** — an insert that is overtaken leaves two active keys.
-/
import NebulaDesk.Lib.Query
import NebulaDesk.Lib.Runs
import NebulaDesk.Common.Ticket

namespace NebulaDesk

/-- 32 bytes: an Ed25519 seed or public key. -/
def Key32 : Type := { bytes : List UInt8 // bytes.length = 32 }
deriving DecidableEq

namespace Key32

/-- `try_into` of a stored value. -/
def ofBytes (bytes : List UInt8) : Option Key32 :=
  if h : bytes.length = 32 then some ⟨bytes, h⟩ else none

@[simp] theorem ofBytes_val (k : Key32) : ofBytes k.val = some k := by
  unfold ofBytes
  rw [dif_pos k.property]
  rfl

end Key32

/-- `ed25519_dalek` and `jsonwebtoken`: a token names the key it was signed with in
its header. -/
structure Jwt where
  Token : Type
  verifyingKey : Key32 → Key32
  encode : Key32 → (kid : Text) → TicketClaims → Token
  /-- The `kid` of a token's header. -/
  decodeHeader : Token → Option Text
  /-- The claims of a token whose signature verifies. -/
  decode : Key32 → Token → Option TicketClaims
  decodeHeader_encode : ∀ seed kid claims, decodeHeader (encode seed kid claims) = some kid
  decode_encode : ∀ seed kid claims, decode (verifyingKey seed) (encode seed kid claims) = some claims

def hexDigit (n : ℕ) : Char := Char.ofNat (if n < 10 then 48 + n else 87 + n)

/-- `hex::encode`. -/
def hexEncode (bytes : List UInt8) : Text :=
  bytes.flatMap fun b => [hexDigit (b.toNat / 16), hexDigit (b.toNat % 16)]

/-- A row of `signing_keys`. -/
structure KeyRow where
  kid : Text
  privateKey : List UInt8
  publicKey : List UInt8
  active : Bool
  createdAt : ℤ
  retiredAt : Option ℤ
deriving DecidableEq

/-- A published key. -/
structure Jwk where
  kty : String
  crv : String
  x : List UInt8
  kid : Text
deriving DecidableEq

def Jwk.ed25519 (publicKey : Key32) (kid : Text) : Jwk :=
  { kty := "OKP", crv := "Ed25519", x := publicKey.val, kid }

structure TicketSigner where
  kid : Text
  encoding : Key32
  verifying : Key32
deriving DecidableEq

section Crypto

variable (jwt : Jwt)

def KeyRow.fresh (seed : Key32) (createdAt : ℤ) : KeyRow where
  kid := hexEncode ((jwt.verifyingKey seed).val.take 8)
  privateKey := seed.val
  publicKey := (jwt.verifyingKey seed).val
  active := true
  createdAt := createdAt
  retiredAt := none

namespace TicketSigner

/-- The signer of a stored row; the errors of `load` are `none`. -/
def ofRow (row : KeyRow) : Option TicketSigner :=
  match Key32.ofBytes row.privateKey, Key32.ofBytes row.publicKey with
  | some secret, some publicKey =>
    if jwt.verifyingKey secret = publicKey then
      some { kid := row.kid, encoding := secret, verifying := jwt.verifyingKey secret }
    else none
  | _, _ => none

def sign (signer : TicketSigner) (claims : TicketClaims) : jwt.Token :=
  jwt.encode signer.encoding signer.kid claims

/-- Sign a fresh ticket. -/
def issue (codec : LaunchCodec) (signer : TicketSigner) (claims : TicketClaims) :
    Option jwt.Token :=
  if claims.launchTarget.validate codec claims.rid claims.policy then some (signer.sign jwt claims)
  else none

/-- The key set gateways fetch and cache. -/
def jwks (signer : TicketSigner) : List Jwk := [Jwk.ed25519 signer.verifying signer.kid]

end TicketSigner

/-- What a gateway that has fetched `jwks` reads from a token: the key its header
names, the signature, the expiry and the target. -/
def verifyTicket (codec : LaunchCodec) (jwks : List Jwk) (now : ℤ) (token : jwt.Token) :
    Option TicketClaims := do
  let kid ← jwt.decodeHeader token
  let jwk ← jwks.find? fun jwk => jwk.kty = "OKP" && jwk.crv = "Ed25519" && jwk.kid = kid
  let key ← Key32.ofBytes jwk.x
  let claims ← jwt.decode key token
  guard (now ≤ claims.exp + clockSkew)
  guard (claims.launchTarget.validate codec claims.rid claims.policy)
  return claims

end Crypto

/-! ### Replicas starting together -/

/-- Where a replica is in `load_or_create`. -/
inductive ReplicaPhase
  | loading
  /-- No key was found. -/
  | creating
  /-- The insert has started. -/
  | inserting (row : KeyRow)
  | reloading
  | returned (signer : TicketSigner)
  | failed
deriving DecidableEq

def ReplicaPhase.isReturned : ReplicaPhase → Bool
  | returned _ => true
  | _ => false

/-- The table as committed, and the replicas that start on it. -/
structure SigningKeys where
  rows : List KeyRow
  clock : ℤ
  replicas : List ReplicaPhase
deriving DecidableEq

inductive SigningEvent
  | tick (now : ℤ)
  /-- Replica `r` runs `load`, whose query answers `answer`. -/
  | load (r : ℕ) (answer : Option KeyRow)
  /-- A fresh key is generated and its insert starts. -/
  | insert (r : ℕ) (seed : Key32)
  | commit (r : ℕ)
  /-- The database answers with an error. -/
  | fail (r : ℕ)
deriving DecidableEq

namespace SigningKeys

def start (clock : ℤ) (n : ℕ) : SigningKeys :=
  { rows := [], clock, replicas := List.replicate n .loading }

/-- `active AND retired_at IS NULL`. -/
def usable (rows : List KeyRow) : List KeyRow := rows.filter fun r => r.active && r.retiredAt.isNone

def setReplica (s : SigningKeys) (r : ℕ) (phase : ReplicaPhase) : SigningKeys :=
  { s with replicas := s.replicas.set r phase }

/-- What a replica is left with once the query has found a row. -/
def adopt (jwt : Jwt) (row : KeyRow) : ReplicaPhase :=
  match TicketSigner.ofRow jwt row with
  | some signer => .returned signer
  | none => .failed

def loadStep (jwt : Jwt) (s : SigningKeys) (r : ℕ) (answer : Option KeyRow) : Option SigningKeys :=
  match s.replicas[r]?, answer with
  | some .loading, none => some (s.setReplica r .creating)
  | some .loading, some row => some (s.setReplica r (adopt jwt row))
  | some .reloading, none => some (s.setReplica r .failed)
  | some .reloading, some row => some (s.setReplica r (adopt jwt row))
  | _, _ => none

/-- `ON CONFLICT (kid) DO NOTHING`. -/
def insertRow (rows : List KeyRow) (row : KeyRow) : List KeyRow :=
  if rows.any (·.kid = row.kid) then rows else rows ++ [row]

def step (jwt : Jwt) (s : SigningKeys) : SigningEvent → Option SigningKeys
  | .tick now => if s.clock ≤ now then some { s with clock := now } else none
  | .load r answer =>
    if Query.FirstBy KeyRow.createdAt (usable s.rows) answer then s.loadStep jwt r answer else none
  | .insert r seed =>
    match s.replicas[r]? with
    | some .creating => some (s.setReplica r (.inserting (.fresh jwt seed s.clock)))
    | _ => none
  | .commit r =>
    match s.replicas[r]? with
    | some (.inserting row) =>
      some { s with rows := insertRow s.rows row, replicas := s.replicas.set r .reloading }
    | _ => none
  | .fail r =>
    match s.replicas[r]? with
    | some .loading | some .creating | some (.inserting _) | some .reloading =>
      some (s.setReplica r .failed)
    | _ => none

/-- Every two replicas that have returned sign under one key id, and the tickets of
each verify against the key set of the other. -/
def Agree (jwt : Jwt) (s : SigningKeys) : Prop :=
  ∀ x y, .returned x ∈ s.replicas → .returned y ∈ s.replicas →
    x.kid = y.kid ∧ ∀ codec claims token now, x.issue jwt codec claims = some token →
      now ≤ claims.exp + clockSkew → verifyTicket jwt codec y.jwks now token = some claims

/-- The commit of `row` is in order: it inserts nothing, its insert started after
that of a visible row, or it started before all of them and no replica has
returned yet. -/
def inOrder (s : SigningKeys) (row : KeyRow) : Bool :=
  s.rows.any (·.kid = row.kid) || s.rows.any (·.createdAt < row.createdAt) ||
    (s.rows.all (row.createdAt < ·.createdAt) && !s.replicas.any (·.isReturned))

def stepInOrder (jwt : Jwt) (s : SigningKeys) (e : SigningEvent) : Option SigningKeys :=
  match e with
  | .commit r =>
    match s.replicas[r]? with
    | some (.inserting row) => if s.inOrder row then s.step jwt e else none
    | _ => none
  | _ => s.step jwt e

variable {jwt : Jwt} {s s' : SigningKeys} {e : SigningEvent} {clock : ℤ} {n : ℕ}

/-! ### The oldest row -/

/-- `m` is older than all other rows. -/
def Oldest (rows : List KeyRow) (m : KeyRow) : Prop :=
  m ∈ rows ∧ ∀ v ∈ rows, v ≠ m → m.createdAt < v.createdAt

variable {rows : List KeyRow} {row : KeyRow}

theorem Oldest.unique {m n : KeyRow} (hm : Oldest rows m) (hn : Oldest rows n) : m = n := by
  by_contra hne
  have h1 := hm.2 n hn.1 (Ne.symm hne)
  have h2 := hn.2 m hm.1 hne
  omega

theorem Oldest.append_later {m v row : KeyRow} (hm : Oldest rows m)
    (hv : v ∈ rows) (hlt : v.createdAt < row.createdAt) : Oldest (rows ++ [row]) m := by
  refine ⟨List.mem_append_left _ hm.1, ?_⟩
  intro w hw hne
  rcases List.mem_append.mp hw with hw | hw
  · exact hm.2 w hw hne
  · obtain rfl := List.mem_singleton.mp hw
    by_cases hvm : v = m
    · rwa [hvm] at hlt
    · exact lt_trans (hm.2 v hv hvm) hlt

theorem oldest_append_first
    (hlt : ∀ v ∈ rows, row.createdAt < v.createdAt) : Oldest (rows ++ [row]) row := by
  refine ⟨List.mem_append_right _ (List.mem_singleton_self row), ?_⟩
  intro w hw hne
  rcases List.mem_append.mp hw with hw | hw
  · exact hlt w hw
  · exact absurd (List.mem_singleton.mp hw) hne

/-- Rows as `load_or_create` writes them. -/
def Written (jwt : Jwt) (row : KeyRow) : Prop := ∃ seed t, row = .fresh jwt seed t

theorem usable_eq (h : ∀ row ∈ rows, Written jwt row) : usable rows = rows := by
  refine List.filter_eq_self.mpr ?_
  intro row hrow
  obtain ⟨seed, t, rfl⟩ := h row hrow
  rfl

theorem ofRow_fresh (seed : Key32) (t : ℤ) :
    TicketSigner.ofRow jwt (.fresh jwt seed t) =
      some { kid := hexEncode ((jwt.verifyingKey seed).val.take 8), encoding := seed,
             verifying := jwt.verifyingKey seed } := by
  simp [TicketSigner.ofRow, KeyRow.fresh]

theorem Written.ofRow (h : Written jwt row) :
    ∃ signer, TicketSigner.ofRow jwt row = some signer := by
  obtain ⟨seed, t, rfl⟩ := h
  exact ⟨_, ofRow_fresh seed t⟩

theorem adopt_eq {signer : TicketSigner}
    (h : TicketSigner.ofRow jwt row = some signer) : adopt jwt row = .returned signer := by
  unfold adopt
  rw [h]

/-! ### One key for all replicas -/

/-- The table has an oldest row once it has any, and the replicas that have
returned hold its key. -/
structure Inv (jwt : Jwt) (s : SigningKeys) : Prop where
  written : ∀ row ∈ s.rows, Written jwt row
  inserting : ∀ row, .inserting row ∈ s.replicas → Written jwt row
  reloading : .reloading ∈ s.replicas → s.rows ≠ []
  oldest : s.rows = [] ∨ ∃ m, Oldest s.rows m
  returned : ∀ x, .returned x ∈ s.replicas → ∃ m, Oldest s.rows m ∧ TicketSigner.ofRow jwt m = some x

theorem inv_start (clock : ℤ) (n : ℕ) : Inv jwt (start clock n) := by
  refine ⟨?_, ?_, ?_, .inl rfl, ?_⟩
  · intro row hrow
    cases hrow
  · intro row hrow
    cases List.eq_of_mem_replicate hrow
  · intro hrel
    cases List.eq_of_mem_replicate hrel
  · intro x hx
    cases List.eq_of_mem_replicate hx

theorem Inv.setReplica (h : Inv jwt s) (r : ℕ) {phase : ReplicaPhase}
    (hins : ∀ row, phase = .inserting row → Written jwt row)
    (hrel : phase = .reloading → s.rows ≠ [])
    (hret : ∀ x, phase = .returned x → ∃ m, Oldest s.rows m ∧ TicketSigner.ofRow jwt m = some x) :
    Inv jwt (s.setReplica r phase) := by
  refine ⟨h.written, ?_, ?_, h.oldest, ?_⟩
  · intro row hrow
    rcases List.mem_or_eq_of_mem_set hrow with hrow | hrow
    · exact h.inserting row hrow
    · exact hins row hrow.symm
  · intro hin
    rcases List.mem_or_eq_of_mem_set hin with hin | hin
    · exact h.reloading hin
    · exact hrel hin.symm
  · intro x hx
    rcases List.mem_or_eq_of_mem_set hx with hx | hx
    · exact h.returned x hx
    · exact hret x hx.symm

theorem Inv.load (h : Inv jwt s)
    (hq : Query.FirstBy KeyRow.createdAt (usable s.rows) (some row)) : Oldest s.rows row := by
  rw [usable_eq h.written] at hq
  rcases h.oldest with hnil | ⟨m, hm⟩
  · rw [hnil] at hq
    cases hq.mem
  · obtain rfl : row = m := Option.some.inj (hq.eq_some hm.1 hm.2)
    exact hm

theorem Inv.adopt (h : Inv jwt s) (r : ℕ)
    (hq : Query.FirstBy KeyRow.createdAt (usable s.rows) (some row)) :
    Inv jwt (s.setReplica r (adopt jwt row)) := by
  obtain ⟨signer, hsigner⟩ := (h.written row (h.load hq).1).ofRow
  rw [adopt_eq hsigner]
  refine h.setReplica r (by simp) (by simp) ?_
  intro x heq
  cases heq
  exact ⟨row, h.load hq, hsigner⟩

theorem insertRow_ne_nil (rows : List KeyRow) (row : KeyRow) : insertRow rows row ≠ [] := by
  unfold insertRow
  split
  · next hany =>
    rintro rfl
    cases hany
  · simp

theorem Inv.commit (h : Inv jwt s) (hwritten : Written jwt row)
    (hord : s.inOrder row = true) : Inv jwt { s with rows := insertRow s.rows row } := by
  unfold insertRow
  split
  · exact h
  · next hkid =>
    have hrows : ∀ v ∈ s.rows ++ [row], Written jwt v := by
      intro v hv
      rcases List.mem_append.mp hv with hv | hv
      · exact h.written v hv
      · rwa [List.mem_singleton.mp hv]
    simp only [inOrder, hkid, Bool.false_or, Bool.or_eq_true, Bool.and_eq_true, List.any_eq_true,
      List.all_eq_true, decide_eq_true_eq, Bool.not_eq_true', List.any_eq_false] at hord
    rcases hord with ⟨v, hv, hlt⟩ | ⟨hlt, hnone⟩
    · -- The oldest row stays the oldest, and with it everything that was returned.
      refine ⟨hrows, h.inserting, fun _ => by simp, ?_, ?_⟩
      · rcases h.oldest with hnil | ⟨m, hm⟩
        · rw [hnil] at hv
          cases hv
        · exact .inr ⟨m, hm.append_later hv hlt⟩
      · intro x hx
        obtain ⟨m, hm, hrow⟩ := h.returned x hx
        exact ⟨m, hm.append_later hv hlt, hrow⟩
    · refine ⟨hrows, h.inserting, fun _ => by simp, .inr ⟨row, oldest_append_first hlt⟩, ?_⟩
      intro x hx
      exact absurd rfl (hnone _ hx)

theorem Inv.step (h : Inv jwt s) (hs : s.stepInOrder jwt e = some s') : Inv jwt s' := by
  cases e with
  | tick now =>
    simp only [stepInOrder, SigningKeys.step] at hs
    obtain ⟨-, rfl⟩ := Runs.some_of_guard hs
    exact { h with }
  | load r answer =>
    simp only [stepInOrder, SigningKeys.step] at hs
    split at hs
    · next hq =>
      unfold loadStep at hs
      split at hs
      · cases hs
        exact h.setReplica r (by simp) (by simp) (by simp)
      · cases hs
        exact h.adopt r hq
      · cases hs
        exact h.setReplica r (by simp) (by simp) (by simp)
      · cases hs
        exact h.adopt r hq
      · cases hs
    · cases hs
  | insert r seed =>
    simp only [stepInOrder, SigningKeys.step] at hs
    split at hs
    · cases hs
      refine h.setReplica r ?_ (by simp) (by simp)
      intro row heq
      exact ⟨seed, s.clock, (ReplicaPhase.inserting.inj heq).symm⟩
    · cases hs
  | commit r =>
    simp only [stepInOrder] at hs
    split at hs
    · next row hphase =>
      split at hs
      · next hord =>
        simp only [SigningKeys.step, hphase] at hs
        cases hs
        have hrow := h.inserting row (List.mem_of_getElem? hphase)
        exact (h.commit hrow hord).setReplica r (by simp) (fun _ => insertRow_ne_nil _ _) (by simp)
      · cases hs
    · cases hs
  | fail r =>
    have hfail : Inv jwt (s.setReplica r .failed) :=
      h.setReplica r (by simp) (by simp) (by simp)
    simp only [stepInOrder, SigningKeys.step] at hs
    split at hs
    all_goals cases hs
    all_goals exact hfail

theorem inv_reach (hr : Runs.Reach (stepInOrder jwt) (start clock n) s) : Inv jwt s :=
  hr.invariant (inv_start clock n) fun _ _ _ h hs => h.step hs

theorem verifyTicket_issue {codec : LaunchCodec} {x : TicketSigner} {claims : TicketClaims}
    {token : jwt.Token} {now : ℤ} (hx : jwt.verifyingKey x.encoding = x.verifying)
    (hissue : x.issue jwt codec claims = some token) (hnow : now ≤ claims.exp + clockSkew) :
    verifyTicket jwt codec x.jwks now token = some claims := by
  unfold TicketSigner.issue at hissue
  obtain ⟨hvalid, rfl⟩ := Runs.some_of_guard hissue
  have hdecode := jwt.decode_encode x.encoding x.kid claims
  rw [hx] at hdecode
  simp [verifyTicket, TicketSigner.sign, TicketSigner.jwks, Jwk.ed25519, jwt.decodeHeader_encode,
    hdecode, hnow, hvalid]

theorem verifying_of_ofRow {x : TicketSigner}
    (h : TicketSigner.ofRow jwt row = some x) : jwt.verifyingKey x.encoding = x.verifying := by
  unfold TicketSigner.ofRow at h
  split at h
  · obtain ⟨-, rfl⟩ := Runs.some_of_guard h
    rfl
  · cases h

theorem Inv.agree (h : Inv jwt s) : Agree jwt s := by
  intro x y hx hy
  obtain ⟨m, hm, hxm⟩ := h.returned x hx
  obtain ⟨n, hn, hyn⟩ := h.returned y hy
  obtain rfl := hm.unique hn
  obtain rfl : x = y := Option.some.inj (hxm.symm.trans hyn)
  refine ⟨rfl, ?_⟩
  intro codec claims token now hissue hnow
  exact verifyTicket_issue (verifying_of_ofRow hxm) hissue hnow

/-- A load fails no replica: the first finds a key or nothing, the second a key. -/
theorem Inv.load_succeeds (h : Inv jwt s) {r : ℕ} {answer : Option KeyRow}
    (hs : s.step jwt (.load r answer) = some s') :
    (s.replicas[r]? = some .loading ∧ s'.replicas[r]? = some .creating) ∨
      ∃ x, s'.replicas[r]? = some (.returned x) := by
  have hset : ∀ {phase next : ReplicaPhase}, s.replicas[r]? = some phase →
      (s.setReplica r next).replicas[r]? = some next := by
    intro phase next hphase
    obtain ⟨hlt, -⟩ := List.getElem?_eq_some_iff.mp hphase
    exact List.getElem?_set_self hlt
  have hadopt : ∀ {row phase}, s.replicas[r]? = some phase →
      Query.FirstBy KeyRow.createdAt (usable s.rows) (some row) →
      ∃ x, (s.setReplica r (SigningKeys.adopt jwt row)).replicas[r]? = some (.returned x) := by
    intro row phase hphase hq
    obtain ⟨signer, hsigner⟩ := (h.written row (h.load hq).1).ofRow
    exact ⟨signer, by rw [hset hphase, adopt_eq hsigner]⟩
  simp only [SigningKeys.step] at hs
  split at hs
  · next hq =>
    unfold loadStep at hs
    split at hs
    · next hphase =>
      cases hs
      exact .inl ⟨hphase, hset hphase⟩
    · next hphase =>
      cases hs
      exact .inr (hadopt hphase hq)
    · next hphase =>
      -- The replica has committed a row before.
      rw [usable_eq h.written] at hq
      exact absurd hq (h.reloading (List.mem_of_getElem? hphase))
    · next hphase =>
      cases hs
      exact .inr (hadopt hphase hq)
    · cases hs
  · cases hs

/-- Whatever the replicas' loads and inserts interleave, as long as inserts commit in
order: all that have returned agree, and no load ends without a key to return. -/
theorem replicas_agree (hr : Runs.Reach (stepInOrder jwt) (start clock n) s) :
    Agree jwt s ∧ ∀ r answer s', s.step jwt (.load r answer) = some s' →
      (s.replicas[r]? = some .loading ∧ s'.replicas[r]? = some .creating) ∨
        ∃ x, s'.replicas[r]? = some (.returned x) := by
  have h := inv_reach hr
  refine ⟨h.agree, ?_⟩
  intro r answer s' hs
  exact h.load_succeeds hs

/-! ### Two replicas -/

/-- Two seeds and their public keys. -/
def seedA : Key32 :=
  ⟨[0x9d, 0x61, 0xb1, 0x9d, 0xef, 0xfd, 0x5a, 0x60, 0xba, 0x84, 0x4a, 0xf4, 0x92, 0xec, 0x2c, 0xc4,
    0x44, 0x49, 0xc5, 0x69, 0x7b, 0x32, 0x69, 0x19, 0x70, 0x3b, 0xac, 0x03, 0x1c, 0xae, 0x7f, 0x60],
    rfl⟩

def publicA : Key32 :=
  ⟨[0xd7, 0x5a, 0x98, 0x01, 0x82, 0xb1, 0x0a, 0xb7, 0xd5, 0x4b, 0xfe, 0xd3, 0xc9, 0x64, 0x07, 0x3a,
    0x0e, 0xe1, 0x72, 0xf3, 0xda, 0xa6, 0x23, 0x25, 0xaf, 0x02, 0x1a, 0x68, 0xf7, 0x07, 0x51, 0x1a],
    rfl⟩

def seedB : Key32 :=
  ⟨[0x4c, 0xcd, 0x08, 0x9b, 0x28, 0xff, 0x96, 0xda, 0x9d, 0xb6, 0xc3, 0x46, 0xec, 0x11, 0x4e, 0x0f,
    0x5b, 0x8a, 0x31, 0x9f, 0x35, 0xab, 0xa6, 0x24, 0xda, 0x8c, 0xf6, 0xed, 0x4f, 0xb8, 0xa6, 0xfb],
    rfl⟩

def publicB : Key32 :=
  ⟨[0x3d, 0x40, 0x17, 0xc3, 0xe8, 0x43, 0x89, 0x5a, 0x92, 0xb7, 0x0a, 0xa7, 0x4d, 0x1b, 0x7e, 0xbc,
    0x9c, 0x98, 0x2c, 0xcf, 0x2e, 0xc4, 0x96, 0x8c, 0xc0, 0xcd, 0x55, 0xf1, 0x2a, 0xf4, 0x66, 0x0c],
    rfl⟩

/-- Tokens that carry the key they were signed for in place of a signature. -/
def sampleJwt : Jwt where
  Token := Key32 × Text × TicketClaims
  verifyingKey seed := if seed = seedA then publicA else if seed = seedB then publicB else seed
  encode seed kid claims :=
    (if seed = seedA then publicA else if seed = seedB then publicB else seed, kid, claims)
  decodeHeader token := some token.2.1
  decode key token := if token.1 = key then some token.2.2 else none
  decodeHeader_encode := fun _ _ _ => rfl
  decode_encode := fun _ _ _ => if_pos rfl

def rowA : KeyRow := .fresh sampleJwt seedA 1

def rowB : KeyRow := .fresh sampleJwt seedB 2

def signerA : TicketSigner := ⟨"d75a980182b10ab7".toList, seedA, publicA⟩

def signerB : TicketSigner := ⟨"3d4017c3e843895a".toList, seedB, publicB⟩

def sampleClaims : TicketClaims where
  jti := 1
  iat := 10
  exp := 70
  sid := 1
  tid := 1
  uid := 1
  mid := 1
  rid := 1
  role := .controller
  policy := .full
  launchTarget := .desktop

/-- Both replicas find no key and start their inserts, `A` first. -/
def sampleStarts : List SigningEvent :=
  [.load 0 none, .load 1 none, .insert 0 seedA, .tick 2, .insert 1 seedB]

/-- The inserts commit in the order they started in: `B` adopts the key of `A`. -/
theorem replicas_agree_in_order :
    ∃ s, Runs.Reach (stepInOrder sampleJwt) (start 1 2) s ∧
      s.replicas = [.returned signerA, .returned signerA] ∧ Agree sampleJwt s := by
  have hrun : (Runs.tryRun (stepInOrder sampleJwt) (start 1 2)
      (sampleStarts ++ ([.commit 0, .load 0 (some rowA), .commit 1,
        .load 1 (some rowA)] : List SigningEvent))).map
        (·.replicas) = some [.returned signerA, .returned signerA] := by
    decide +kernel
  obtain ⟨s, htry, hs⟩ := Option.map_eq_some_iff.mp hrun
  have hr := Runs.reach_of_tryRun .init htry
  exact ⟨s, hr, hs, (replicas_agree hr).1⟩

/-- `B` commits and returns while the insert of `A`, which started first, is on its
way.  `A` then finds its own row the oldest: two active keys, and the gateways that
fetched the key set of `B` refuse the tickets of `A`. -/
theorem replicas_disagree :
    ∃ s, Runs.Reach (step sampleJwt) (start 1 2) s ∧
      s.replicas = [.returned signerA, .returned signerB] ∧ signerA.kid ≠ signerB.kid ∧
      (signerA.issue sampleJwt sampleLaunchCodec sampleClaims).bind
        (verifyTicket sampleJwt sampleLaunchCodec signerB.jwks 20) = none ∧ ¬ Agree sampleJwt s := by
  have hrun : (Runs.tryRun (step sampleJwt) (start 1 2)
      (sampleStarts ++ ([.commit 1, .load 1 (some rowB), .commit 0,
        .load 0 (some rowA)] : List SigningEvent))).map
        (·.replicas) = some [.returned signerA, .returned signerB] := by
    decide +kernel
  have hkid : signerA.kid ≠ signerB.kid := by decide
  obtain ⟨s, htry, hs⟩ := Option.map_eq_some_iff.mp hrun
  refine ⟨s, Runs.reach_of_tryRun .init htry, hs, hkid, by decide +kernel, ?_⟩
  intro hagree
  exact hkid (hagree signerA signerB (by simp [hs]) (by simp [hs])).1

end SigningKeys

end NebulaDesk
