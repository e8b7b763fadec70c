/-
Relay pairing tokens (`ndp-signal/src/pairing.rs`).

A gateway mints two short-lived tokens for a session, one for each side, and a
relay verifies them with the shared secret.  `verify_ok` says what a token that
verifies consists of, and `pair_token_exact` that these are all that do, the
minted ones among them.
-/
import NebulaDesk.Lib.Bytes

namespace NebulaDesk

open Bytes

/-- Which end of the session a token authorises. -/
inductive Side
  | client
  | agent
deriving DecidableEq, Repr

namespace Side

/-- The other end of the same session. -/
def peer : Side → Side
  | client => agent
  | agent => client

def tag : Side → UInt8
  | client => 1
  | agent => 2

def fromTag (tag : UInt8) : Option Side :=
  if tag = 1 then some client else if tag = 2 then some agent else none

theorem peer_ne (side : Side) : side.peer ≠ side := by
  cases side <;> decide

@[simp] theorem fromTag_tag (side : Side) : fromTag side.tag = some side := by
  cases side <;> rfl

theorem tag_of_fromTag {tag : UInt8} {side : Side} (h : fromTag tag = some side) :
    side.tag = tag := by
  unfold fromTag at h
  split at h
  · next htag => rw [← Option.some.inj h, htag, Side.tag]
  · split at h
    · next htag => rw [← Option.some.inj h, htag, Side.tag]
    · cases h

end Side

/-- The bytes of a session's uuid. -/
abbrev SessionId := Vector UInt8 16

def SessionId.fromBytes (bytes : List UInt8) : SessionId := Vector.ofFn fun i => bytes.getD i 0

theorem SessionId.fromBytes_append (session : SessionId) (rest : List UInt8) :
    SessionId.fromBytes (session.toList ++ rest) = session := by
  apply Vector.ext
  intro i hi
  have hget : (session.toList ++ rest)[i]? = some session[i] := by
    rw [List.getElem?_append_left (by simpa using hi)]
    simp [hi]
  simp [SessionId.fromBytes, hget]

theorem SessionId.toList_fromBytes {bytes : List UInt8} (h : bytes.length = 16) :
    (SessionId.fromBytes bytes).toList = bytes := by
  refine List.ext_getElem (by simp [h]) ?_
  intro i hi hi'
  simp [SessionId.fromBytes, hi']

/-- Why a pairing token was rejected. -/
inductive TokenError
  | malformed
  | badSignature
  | expired
deriving DecidableEq, Repr

/-- How long a pairing token remains usable, in seconds. -/
def tokenTtl : UInt64 := 30

/-- The smallest acceptable pairing secret. -/
def minSecretLen : ℕ := 32

def macLen : ℕ := 32

/-- The decoded length of a token: 16 id + 1 side + 8 expiry + 32 MAC. -/
def tokenLen : ℕ := 16 + 1 + 8 + macLen

structure PairToken where
  session : SessionId
  side : Side
  /-- Expiry, Unix seconds. -/
  expiresAt : UInt64
deriving DecidableEq, Repr

def PairToken.body (t : PairToken) : List UInt8 :=
  t.session.toList ++ t.side.tag :: (toLeBytes 8 t.expiresAt.toNat).reverse

/-- URL-safe base64 without padding, and HMAC-SHA256. -/
structure PairCodec where
  encode : List UInt8 → String
  decode : String → Option (List UInt8)
  hmac : List UInt8 → List UInt8 → List UInt8
  decode_encode : ∀ raw, decode (encode raw) = some raw
  length_hmac : ∀ key body, (hmac key body).length = macLen

/-- A deployment-wide secret. -/
structure PairKey where
  key : List UInt8
  long : minSecretLen ≤ key.length

namespace PairKey

def new (secret : List UInt8) : Except TokenError PairKey :=
  if h : secret.length < minSecretLen then .error .malformed
  else .ok ⟨secret, Nat.le_of_not_lt h⟩

variable (codec : PairCodec) (key : PairKey)

def mac (body : List UInt8) : List UInt8 := codec.hmac key.key body

def mintAt (session : SessionId) (side : Side) (expiresAt : UInt64) : String :=
  let body := PairToken.body ⟨session, side, expiresAt⟩
  codec.encode (body ++ key.mac codec body)

/-- A token valid for `tokenTtl` from `now`. -/
def mint (now : UInt64) (session : SessionId) (side : Side) : String :=
  key.mintAt codec session side (now + tokenTtl)

/-- The body of a token whose MAC checks. -/
def authentic (token : String) : Except TokenError (List UInt8) :=
  match codec.decode token with
  | none => .error .malformed
  | some raw =>
    if raw.length ≠ tokenLen then .error .malformed
    else if raw.drop (tokenLen - macLen) ≠ key.mac codec (raw.take (tokenLen - macLen)) then
      .error .badSignature
    else .ok (raw.take (tokenLen - macLen))

def verify (now : UInt64) (token : String) : Except TokenError PairToken :=
  match key.authentic codec token with
  | .error e => .error e
  | .ok body =>
    match Side.fromTag (body.getD 16 0) with
    | none => .error .malformed
    | some side =>
      let expiresAt := UInt64.ofNat (fromLeBytes (body.drop 17).reverse)
      if now ≥ expiresAt then .error .expired
      else .ok ⟨SessionId.fromBytes (body.take 16), side, expiresAt⟩

end PairKey

namespace PairToken

@[simp] theorem length_body (t : PairToken) : t.body.length = tokenLen - macLen := by
  simp [body, tokenLen, macLen]

theorem body_take (t : PairToken) : t.body.take 16 = t.session.toList := by
  rw [body, List.take_append_of_le_length (by simp), List.take_of_length_le (by simp)]

theorem body_getD (t : PairToken) : t.body.getD 16 0 = t.side.tag := by
  simp [body]

theorem body_drop (t : PairToken) : t.body.drop 17 = (toLeBytes 8 t.expiresAt.toNat).reverse := by
  rw [body, List.drop_append]
  simp

theorem body_eq {bytes : List UInt8} (hlen : bytes.length = tokenLen - macLen) {side : Side}
    (hside : Side.fromTag (bytes.getD 16 0) = some side) :
    body ⟨SessionId.fromBytes (bytes.take 16), side,
      UInt64.ofNat (fromLeBytes (bytes.drop 17).reverse)⟩ = bytes := by
  have hlen' : bytes.length = 25 := hlen
  have hid : (SessionId.fromBytes (bytes.take 16)).toList = bytes.take 16 :=
    SessionId.toList_fromBytes (by simp [hlen'])
  have hrev : (bytes.drop 17).reverse.length = 8 := by simp [hlen']
  have hlt : fromLeBytes (bytes.drop 17).reverse < 2 ^ 64 := by
    have hbound := fromLeBytes_lt (bytes.drop 17).reverse
    rw [hrev] at hbound
    exact lt_of_lt_of_eq hbound (by norm_num)
  have hexp : toLeBytes 8 (UInt64.ofNat (fromLeBytes (bytes.drop 17).reverse)).toNat =
      (bytes.drop 17).reverse := by
    rw [UInt64.toNat_ofNat_of_lt' hlt]
    conv_lhs => rw [← hrev]
    exact toLeBytes_fromLeBytes _
  have htag : bytes.getD 16 0 = bytes[16] := by simp [hlen']
  rw [body, hid, hexp, Side.tag_of_fromTag hside, List.reverse_reverse, htag,
    ← List.drop_eq_getElem_cons, List.take_append_drop]

theorem body_inj {t u : PairToken} (h : t.body = u.body) : t = u := by
  have hsession : t.session = u.session := by
    rw [← SessionId.fromBytes_append t.session [], ← SessionId.fromBytes_append u.session [],
      ← body_take, ← body_take, h]
  have hside : t.side = u.side := by
    have htag : t.side.tag = u.side.tag := by rw [← body_getD, ← body_getD, h]
    exact Option.some.inj (by rw [← Side.fromTag_tag, ← Side.fromTag_tag, htag])
  have hexp : t.expiresAt = u.expiresAt := by
    have hbytes : toLeBytes 8 t.expiresAt.toNat = toLeBytes 8 u.expiresAt.toNat :=
      List.reverse_injective (by rw [← body_drop, ← body_drop, h])
    exact UInt64.toNat_inj.mp (toLeBytes_inj (lt_of_lt_of_eq t.expiresAt.toNat_lt (by norm_num))
      (lt_of_lt_of_eq u.expiresAt.toNat_lt (by norm_num)) hbytes)
  cases t
  cases u
  simp_all

end PairToken

namespace PairKey

variable {codec : PairCodec} {key : PairKey} {now : UInt64} {token : String}

theorem authentic_ok {body : List UInt8} (h : key.authentic codec token = .ok body) :
    codec.decode token = some (body ++ key.mac codec body) ∧ body.length = tokenLen - macLen := by
  unfold authentic at h
  split at h
  · cases h
  · next raw hraw =>
    split at h
    · cases h
    · next hlen =>
      split at h
      · cases h
      · next hmac =>
        cases h
        rw [not_not] at hlen hmac
        refine ⟨?_, by rw [List.length_take, hlen]; decide⟩
        rw [hraw, ← hmac, List.take_append_drop]

/-- What a token that verifies consists of: it is unexpired, and its MAC is over
the session, side and expiry it stands for. -/
theorem verify_ok {t : PairToken} (h : key.verify codec now token = .ok t) :
    key.authentic codec token = .ok t.body ∧ now < t.expiresAt := by
  unfold verify at h
  split at h
  · cases h
  · next body hbody =>
    split at h
    · cases h
    · next side hside =>
      dsimp only at h
      split at h
      · cases h
      · next hexp =>
        obtain rfl := Except.ok.inj h
        rw [PairToken.body_eq (authentic_ok hbody).2 hside]
        exact ⟨hbody, UInt64.not_le.mp hexp⟩

theorem verify_iff {t : PairToken} : key.verify codec now token = .ok t ↔
    codec.decode token = some (t.body ++ key.mac codec t.body) ∧ now < t.expiresAt := by
  constructor
  · intro h
    obtain ⟨hbody, hlt⟩ := verify_ok h
    exact ⟨(authentic_ok hbody).1, hlt⟩
  rintro ⟨hdecode, hlt⟩
  have hlen := PairToken.length_body t
  have hbody : key.authentic codec token = .ok t.body := by
    unfold authentic
    rw [hdecode]
    have hraw : (t.body ++ key.mac codec t.body).length = tokenLen := by
      rw [List.length_append, hlen, mac, codec.length_hmac]
      decide
    dsimp only
    rw [if_neg (not_not.mpr hraw), List.take_left' hlen, List.drop_left' hlen, if_neg (not_not.mpr rfl)]
  have hexp : UInt64.ofNat (fromLeBytes (toLeBytes 8 t.expiresAt.toNat)) = t.expiresAt := by
    rw [fromLeBytes_toLeBytes_of_lt (lt_of_lt_of_eq t.expiresAt.toNat_lt (by norm_num)),
      UInt64.ofNat_toNat]
  unfold verify
  rw [hbody]
  dsimp only
  rw [PairToken.body_getD, Side.fromTag_tag]
  dsimp only
  rw [PairToken.body_drop, List.reverse_reverse, hexp, if_neg (UInt64.not_le.mpr hlt),
    PairToken.body_take, ← List.append_nil t.session.toList, SessionId.fromBytes_append]

/-- **A token verifies exactly if it spells an unexpired session and side, and their MAC,** so one
that was minted verifies until it expires. -/
theorem pair_token_exact (codec : PairCodec) (key : PairKey) (now : UInt64) :
    (∀ token t, key.verify codec now token = .ok t ↔
      codec.decode token = some (t.body ++ key.mac codec t.body) ∧ now < t.expiresAt) ∧
    (∀ session side expiresAt,
      key.verify codec now (key.mintAt codec session side expiresAt) =
        .ok ⟨session, side, expiresAt⟩ ↔ now < expiresAt) ∧
    ∀ session side minted, key.verify codec now (key.mint codec minted session side) =
      .ok ⟨session, side, minted + tokenTtl⟩ ↔ now < minted + tokenTtl := by
  have hmint : ∀ session side expiresAt,
      key.verify codec now (key.mintAt codec session side expiresAt) =
        .ok ⟨session, side, expiresAt⟩ ↔ now < expiresAt := by
    intro session side expiresAt
    rw [verify_iff, mintAt, codec.decode_encode]
    exact and_iff_right rfl
  exact ⟨fun _ _ => verify_iff, hmint, fun session side minted => hmint session side _⟩

end PairKey

/-! ### The two tokens of one session

The MACs and the encodings of the tokens a deployment with this secret mints for
one session, as HMAC-SHA256 and base64 give them. -/

def sampleSession : SessionId := #v[1, 143, 60, 0, 0, 0, 112, 0, 128, 0, 0, 0, 0, 0, 0, 42]

/-- `a-pairing-secret-of-sufficient-length`. -/
def sampleKey : PairKey where
  key := [97, 45, 112, 97, 105, 114, 105, 110, 103, 45, 115, 101, 99, 114, 101, 116, 45, 111, 102,
    45, 115, 117, 102, 102, 105, 99, 105, 101, 110, 116, 45, 108, 101, 110, 103, 116, 104]
  long := by decide

def sampleMac : Side → List UInt8
  | .client => [250, 126, 179, 195, 102, 131, 198, 166, 78, 247, 191, 141, 18, 231, 20, 235, 178,
      78, 173, 214, 2, 223, 254, 208, 93, 110, 163, 220, 106, 60, 134, 235]
  | .agent => [244, 73, 1, 114, 225, 217, 173, 203, 208, 100, 145, 246, 33, 49, 144, 164, 154, 119,
      155, 130, 250, 92, 165, 242, 76, 23, 221, 113, 128, 185, 78, 99]

def sampleToken : Side → String
  | .client => "AY88AAAAcACAAAAAAAAAKgEAAAAAAAAEBvp-s8Nmg8amTve_jRLnFOuyTq3WAt_-0F1uo9xqPIbr"
  | .agent => "AY88AAAAcACAAAAAAAAAKgIAAAAAAAAEBvRJAXLh2a3L0GSR9iExkKSad5uC-lyl8kwX3XGAuU5j"

def sampleBody (side : Side) : List UInt8 := PairToken.body ⟨sampleSession, side, 1030⟩

def sampleRaw (side : Side) : List UInt8 := sampleBody side ++ sampleMac side

/-- Other strings are escaped by a character that base64 does not use. -/
def sampleCodec : PairCodec where
  encode raw :=
    if raw = sampleRaw .client then sampleToken .client
    else if raw = sampleRaw .agent then sampleToken .agent
    else String.ofList ('~' :: raw.map fun b => Char.ofNat b.toNat)
  decode token :=
    if token = sampleToken .client then some (sampleRaw .client)
    else if token = sampleToken .agent then some (sampleRaw .agent)
    else match token.toList with
      | '~' :: cs => some (cs.map fun c => UInt8.ofNat c.toNat)
      | _ => none
  hmac key body :=
    if key = sampleKey.key ∧ body = sampleBody .client then sampleMac .client
    else if key = sampleKey.key ∧ body = sampleBody .agent then sampleMac .agent
    else List.replicate macLen 0
  decode_encode := by
    intro raw
    by_cases hclient : raw = sampleRaw .client
    · rw [if_pos hclient, if_pos rfl, hclient]
    · by_cases hagent : raw = sampleRaw .agent
      · rw [if_neg hclient, if_pos hagent, if_neg (by decide), if_pos rfl, hagent]
      · have hescaped : ∀ side, String.ofList ('~' :: raw.map fun b => Char.ofNat b.toNat) ≠
            sampleToken side := by
          intro side heq
          have hchars := congrArg String.toList heq
          cases side <;> simp [sampleToken] at hchars
        have hbytes : (fun c : Char => UInt8.ofNat c.toNat) ∘ (fun b : UInt8 => Char.ofNat b.toNat) =
            id := by
          funext b
          have hvalid : b.toNat.isValidChar := Or.inl (by have := b.toNat_lt; omega)
          have hchar : (Char.ofNat b.toNat).toNat = b.toNat := by
            rw [Char.ofNat, dif_pos hvalid]
            rfl
          simp [hchar]
        rw [if_neg hclient, if_neg hagent, if_neg (hescaped _), if_neg (hescaped _),
          String.toList_ofList]
        show some _ = _
        rw [List.map_map, hbytes, List.map_id]
  length_hmac := by
    intro key body
    split
    · rfl
    · split
      · rfl
      · exact List.length_replicate

example : sampleKey.mint sampleCodec 1000 sampleSession .client = sampleToken .client := by
  decide +kernel

end NebulaDesk
