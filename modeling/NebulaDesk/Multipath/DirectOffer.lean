/-
Direct-path offers (`ndp-signal/src/direct.rs`), the agent that publishes them
(`nebula-agent/src/direct.rs`) and the client that takes them (`nebula-client/src/direct.rs`).

The agent lists the addresses of its interfaces under the ports it has bound, in an order of its
own and no more than eight of them; the message carries them as texts, each with a priority,
and the client sorts by that.

* **`validate_ok_iff`** — what an offer has to be.
* **`select_valid`** — what the agent selects is that.
* **`decode_encode`** — an offer that may be encoded is decoded as it, in the same order.
-/
import NebulaDesk.Common.Uuids
import NebulaDesk.Lib.Address
import NebulaDesk.Proto.Control

namespace NebulaDesk

open Net

/-- `SignalError`, the kinds that an offer meets. -/
inductive SignalError
  | invalidDirect (reason : Text)
  | tooLarge (bytes : ℕ)
  | malformed
deriving DecidableEq

/-- `MAX_DIRECT_ADDRESSES`. -/
def maxDirectAddresses : ℕ := 8

/-- A per-session listener offer. -/
structure DirectOffer where
  /-- Wire schema version, currently 1. -/
  version : UInt8
  /-- The already authorised logical session. -/
  session : Uuid
  /-- Binds a direct Noise handshake to this particular listener. -/
  id : Uuid
  addresses : List SocketAddr
  /-- SHA-256 pin for the listener's ephemeral TLS certificate. -/
  certificatePin : Text
deriving DecidableEq

/-- The readers of other packages: `serde_json`, the other control messages that it may find, and
`Uuid::parse_str`. -/
structure SignalCodec where
  json : Json.Reader
  otherMessage : Json.Value → Bool
  uuids : UuidReader

/-! ### Addresses -/

def candidateIpv4 (ip : Ipv4) : Bool :=
  match ip.toList with
  | [a, b, c, d] =>
    !(a = 0 && b = 0 && c = 0 && d = 0) -- unspecified
      && !(a = 127) -- loopback
      && !(224 ≤ a && a ≤ 239) -- multicast
      && !(a = 255 && b = 255 && c = 255 && d = 255) -- broadcast
  | _ => false

/-- `candidate_ip`: whether an address can be advertised without guessing a scope. -/
def candidateIp : IpAddr → Bool
  | .v4 ip => candidateIpv4 ip
  | .v6 ip =>
    match ip.toIpv4Mapped with
    | some ip => candidateIpv4 ip
    | none =>
      let first := ip.toList.headD 0
      !(ip.toList = [0, 0, 0, 0, 0, 0, 0, 0]) -- unspecified
        && !(ip.toList = [0, 0, 0, 0, 0, 0, 0, 1]) -- loopback
        && !(first &&& 0xff00 = 0xff00) -- multicast
        && !(first &&& 0xffc0 = 0xfe80) -- link local

/-! ### The offer -/

namespace DirectOffer

def invalid {α : Type} (reason : String) : Except SignalError α :=
  .error (.invalidDirect reason.toList)

/-- `u8::is_ascii_hexdigit`. -/
def isAsciiHexdigit (byte : UInt8) : Bool :=
  (48 ≤ byte && byte ≤ 57) || (65 ≤ byte && byte ≤ 70) || (97 ≤ byte && byte ≤ 102)

/-- The loop of `validate`, with the addresses before. -/
def checkAddresses : List SocketAddr → List SocketAddr → Except SignalError Unit
  | _, [] => .ok ()
  | before, address :: rest =>
    if address.port = 0 ∨ candidateIp address.ip = false ∨ address ∈ before then
      invalid "invalid or duplicated direct-path address"
    else
      match address with
      | .v6 _ _ _ scopeId =>
        if scopeId ≠ 0 then invalid "a remote interface scope cannot be used locally"
        else checkAddresses (before ++ [address]) rest
      | .v4 _ _ => checkAddresses (before ++ [address]) rest

local instance neZero_uuid : NeZero (2 ^ 128) := ⟨by decide⟩

/-- `DirectOffer::validate`. -/
def validate (offer : DirectOffer) (session : Uuid) : Except SignalError Unit :=
  if offer.version ≠ 1 ∨ offer.session ≠ session ∨ offer.id = 0 then
    invalid "wrong direct-path version, session, or listener id"
  else if offer.addresses = [] ∨ maxDirectAddresses < offer.addresses.length then
    invalid "direct-path address count is outside the allowed range"
  else if offer.certificatePin.bytes.length ≠ 64 ∨
      offer.certificatePin.bytes.all isAsciiHexdigit = false then
    invalid "invalid direct-path certificate pin"
  else checkAddresses [] offer.addresses

/-- The candidates of addresses from an index on: `MAX_DIRECT_ADDRESSES - index` is the
priority. -/
def candidates : ℕ → List SocketAddr → List PathCandidate
  | _, [] => []
  | index, address :: rest =>
    ⟨address.text, .host, UInt32.ofNat (maxDirectAddresses - index)⟩ :: candidates (index + 1) rest

def message (offer : DirectOffer) : PathCandidates where
  candidates := candidates 0 offer.addresses
  directBinding := some
    { version := offer.version
      session := uuid offer.session.val
      listener := uuid offer.id.val
      certificatePin := offer.certificatePin }

/-- `DirectOffer::encode`. -/
def encode (offer : DirectOffer) : Except SignalError (List UInt8) := do
  offer.validate offer.session
  .ok (Json.utf8 offer.message.value.text)

def candidateAddress (candidate : PathCandidate) : Except SignalError SocketAddr :=
  if candidate.kind ≠ .host then invalid "only host candidates are supported"
  else
    match SocketAddr.parse candidate.addr with
    | some address => .ok address
    | none => invalid "candidate is not a literal socket address"

def parseUuid (codec : SignalCodec) (text : Text) (reason : String) : Except SignalError Uuid :=
  match codec.uuids.parse text with
  | some id => .ok id
  | none => invalid reason

/-- `DirectOffer::decode`. -/
def decode (codec : SignalCodec) (payload : List UInt8) : Except SignalError DirectOffer :=
  if 4096 < payload.length then .error (.tooLarge payload.length)
  else
    match codec.json.read payload with
    | none => .error .malformed
    | some v =>
      match PathCandidates.ofValue v with
      | none =>
        if codec.otherMessage v then invalid "missing authenticated direct binding"
        else .error .malformed
      | some ⟨_, none⟩ => invalid "missing authenticated direct binding"
      | some ⟨candidates, some binding⟩ =>
        if maxDirectAddresses < candidates.length then invalid "too many direct candidates"
        else do
          -- the highest priority first
          let sorted := candidates.insertionSort fun c c' => c.priority ≥ c'.priority
          let addresses ← sorted.mapM candidateAddress
          let session ← parseUuid codec binding.session "invalid session UUID"
          let id ← parseUuid codec binding.listener "invalid listener UUID"
          .ok ⟨binding.version, session, id, addresses, binding.certificatePin⟩

end DirectOffer

/-! ### The agent -/

/-- A certificate's SHA-256. -/
structure Fingerprint where
  bytes : List UInt8
  length_eq : bytes.length = 32

def Fingerprint.toHex (fingerprint : Fingerprint) : Text :=
  fingerprint.bytes.flatMap fun byte =>
    [Json.hexDigit (byte.toNat / 16), Json.hexDigit (byte.toNat % 16)]

/-- The address of a bound endpoint: it has been given a port. -/
abbrev Bound := { address : SocketAddr // address.port ≠ 0 }

/-- What addresses are sorted by: the family, and the order of `SocketAddr`. -/
def sortKey : SocketAddr → List ℕ
  | .v4 ip port => 0 :: (ip.toList ++ [port.toNat])
  | .v6 ip port flowinfo scopeId => 1 :: (ip.toList ++ [port.toNat, flowinfo.toNat, scopeId.toNat])

def interfaceAddresses (endpoints : List Bound) (ip : IpAddr) : List SocketAddr :=
  if candidateIp ip then
    endpoints.filterMap fun bound =>
      if ip.isIpv4 = bound.val.isIpv4 then some (.new ip bound.val.port) else none
  else []

/-- The selection of the publish arm: filter, sort, dedup, truncate. -/
def select (interfaces : List IpAddr) (endpoints : List Bound) : List SocketAddr :=
  let addresses := interfaces.flatMap (interfaceAddresses endpoints)
  let sorted := addresses.insertionSort fun a b => sortKey a ≤ sortKey b
  (sorted.destutter (· ≠ ·)).take maxDirectAddresses

namespace DirectOffer

/-- The offer of a listener, before an address is known. -/
def listening (session : Uuid) (id : UuidV7) (fingerprint : Fingerprint) : DirectOffer where
  version := 1
  session := session
  id := id.id
  addresses := []
  certificatePin := fingerprint.toHex

/-- The publish arm: the offer from now on, and the payload that is sent. -/
def publish (offer : DirectOffer) (interfaces : List IpAddr) (endpoints : List Bound) :
    DirectOffer × Except SignalError (Option (List UInt8)) :=
  let addresses := select interfaces endpoints
  if addresses = [] then (offer, .ok none)
  else
    let offer := { offer with addresses := addresses }
    (offer, do
      offer.validate offer.session
      let payload ← offer.encode
      .ok (some payload))

/-- `ConnectedReceiver::recv` on such a message: the offer that the connector is given. -/
def receive (codec : SignalCodec) (id : Uuid) (payload : List UInt8) : Option DirectOffer :=
  match decode codec payload with
  | .ok offer => if offer.validate id = .ok () then some offer else none
  | .error _ => none

end DirectOffer

/-! ### What an offer has to be -/

/-- What `validate` asks of an offer for a session. -/
structure DirectOffer.Valid (offer : DirectOffer) (session : Uuid) : Prop where
  version : offer.version = 1
  session : offer.session = session
  id : offer.id ≠ 0
  nonempty : offer.addresses ≠ []
  length_le : offer.addresses.length ≤ maxDirectAddresses
  length_pin : offer.certificatePin.bytes.length = 64
  hex_pin : offer.certificatePin.bytes.all DirectOffer.isAsciiHexdigit
  usable : ∀ a ∈ offer.addresses, a.port ≠ 0 ∧ candidateIp a.ip ∧ a.scopeId = 0
  nodup : offer.addresses.Nodup

namespace DirectOffer

theorem checkAddresses_ok_iff (before l : List SocketAddr) :
    checkAddresses before l = .ok () ↔
      (∀ a ∈ l, a.port ≠ 0 ∧ candidateIp a.ip ∧ a.scopeId = 0) ∧ l.Nodup ∧ ∀ a ∈ l, a ∉ before := by
  induction l generalizing before with
  | nil => simp [checkAddresses]
  | cons a l ih =>
    rw [checkAddresses.eq_def]
    simp only
    have hrest : checkAddresses (before ++ [a]) l = .ok () ↔
        (∀ b ∈ l, b.port ≠ 0 ∧ candidateIp b.ip ∧ b.scopeId = 0) ∧ l.Nodup ∧
          (∀ b ∈ l, b ∉ before) ∧ a ∉ l := by
      rw [ih]
      have hnotin : (∀ b ∈ l, b ∉ before ++ [a]) ↔ (∀ b ∈ l, b ∉ before) ∧ a ∉ l := by
        simp only [List.mem_append, List.mem_singleton, not_or]
        refine ⟨fun h => ⟨fun b hb => (h b hb).1, fun ha => (h a ha).2 rfl⟩, fun h b hb =>
          ⟨h.1 b hb, fun hba => h.2 (hba ▸ hb)⟩⟩
      rw [hnotin]
    by_cases hbad : a.port = 0 ∨ candidateIp a.ip = false ∨ a ∈ before
    · rw [if_pos hbad]
      refine ⟨(fun h => nomatch h), fun ⟨husable, _, hnotin⟩ => ?_⟩
      obtain ⟨hport, hip, -⟩ := husable a List.mem_cons_self
      rcases hbad with h | h | h
      · exact absurd h hport
      · rw [h] at hip
        cases hip
      · exact absurd h (hnotin a List.mem_cons_self)
    · rw [if_neg hbad]
      simp only [not_or, Bool.not_eq_false] at hbad
      have hcons : a.scopeId = 0 → (checkAddresses (before ++ [a]) l = .ok () ↔
          (∀ b ∈ a :: l, b.port ≠ 0 ∧ candidateIp b.ip ∧ b.scopeId = 0) ∧ (a :: l).Nodup ∧
            ∀ b ∈ a :: l, b ∉ before) := by
        intro hscope
        rw [hrest, List.forall_mem_cons, List.nodup_cons, List.forall_mem_cons]
        tauto
      cases a with
      | v4 ip port => exact hcons rfl
      | v6 ip port flowinfo scopeId =>
        simp only
        split
        · next hscope =>
          exact ⟨(fun h => nomatch h), fun h => absurd (h.1 _ List.mem_cons_self).2.2 hscope⟩
        · next hscope => exact hcons (not_not.mp hscope)

theorem validate_ok_iff (offer : DirectOffer) (session : Uuid) :
    offer.validate session = .ok () ↔ offer.Valid session := by
  unfold validate
  split
  · next h =>
    refine ⟨(fun h => nomatch h), fun hvalid => ?_⟩
    rcases h with h | h | h
    · exact absurd hvalid.version h
    · exact absurd hvalid.session h
    · exact absurd h hvalid.id
  next hids =>
  simp only [not_or, not_not] at hids
  split
  · next h =>
    refine ⟨(fun h => nomatch h), fun hvalid => ?_⟩
    rcases h with h | h
    · exact absurd h hvalid.nonempty
    · exact absurd hvalid.length_le (Nat.not_le.mpr h)
  next hcount =>
  simp only [not_or, not_lt] at hcount
  split
  · next h =>
    refine ⟨(fun h => nomatch h), fun hvalid => ?_⟩
    rcases h with h | h
    · exact absurd hvalid.length_pin h
    · exact absurd hvalid.hex_pin (by simp [h])
  next hpin =>
  simp only [not_or, not_not, Bool.not_eq_false] at hpin
  rw [checkAddresses_ok_iff]
  refine ⟨fun ⟨husable, hnodup, _⟩ => ⟨hids.1, hids.2.1, hids.2.2, hcount.1, hcount.2, hpin.1,
    hpin.2, husable, hnodup⟩, fun hvalid => ⟨hvalid.usable, hvalid.nodup, by simp⟩⟩

end DirectOffer

/-! ### The selection -/

theorem sortKey_injective : Function.Injective sortKey := by
  have hgroups : ∀ {k b : ℕ} {g g' : Groups k b} {t t' : List ℕ},
      g.toList ++ t = g'.toList ++ t' → g = g' ∧ t = t' := by
    intro k b g g' t t' h
    obtain ⟨hg, ht⟩ := List.append_inj h (by rw [g.length_eq, g'.length_eq])
    exact ⟨Groups.ext_toList hg, ht⟩
  intro a a' h
  cases a with
  | v4 ip port =>
    cases a' with
    | v4 ip' port' =>
      obtain ⟨hip, hport⟩ := hgroups (List.cons.inj h).2
      rw [hip, UInt16.toNat_inj.mp (List.cons.inj hport).1]
    | v6 ip' port' flowinfo' scopeId' => exact absurd (List.cons.inj h).1 (by decide)
  | v6 ip port flowinfo scopeId =>
    cases a' with
    | v4 ip' port' => exact absurd (List.cons.inj h).1 (by decide)
    | v6 ip' port' flowinfo' scopeId' =>
      obtain ⟨hip, hrest⟩ := hgroups (List.cons.inj h).2
      simp only [List.cons.injEq, and_true] at hrest
      rw [hip, UInt16.toNat_inj.mp hrest.1, UInt32.toNat_inj.mp hrest.2.1,
        UInt32.toNat_inj.mp hrest.2.2]

theorem nodup_select (interfaces : List IpAddr) (endpoints : List Bound) :
    (select interfaces endpoints).Nodup := by
  unfold select
  generalize interfaces.flatMap (interfaceAddresses endpoints) = addresses
  simp only
  have hsorted : (addresses.insertionSort fun a b => sortKey a ≤ sortKey b).Pairwise
      fun a b => sortKey a ≤ sortKey b := by
    have : Std.Total (fun a b => sortKey a ≤ sortKey b) := ⟨fun a b => le_total _ _⟩
    have : IsTrans SocketAddr (fun a b => sortKey a ≤ sortKey b) := ⟨fun a b c => le_trans⟩
    exact List.pairwise_insertionSort _ _
  generalize addresses.insertionSort (fun a b => sortKey a ≤ sortKey b) = sorted at hsorted
  have hle : (sorted.destutter (· ≠ ·)).Pairwise fun a b => sortKey a ≤ sortKey b :=
    hsorted.sublist (List.destutter_sublist _ _)
  have hne : (sorted.destutter (· ≠ ·)).IsChain (· ≠ ·) := List.isChain_destutter _ _
  -- neighbours differ and do not decrease, so the keys increase
  have hlt : (sorted.destutter (· ≠ ·)).Pairwise fun a b => sortKey a < sortKey b := by
    have : Trans (fun a b => sortKey a < sortKey b) (fun a b => sortKey a < sortKey b)
        (fun a b => sortKey a < sortKey b) := ⟨lt_trans⟩
    rw [← List.isChain_iff_pairwise]
    refine List.isChain_iff_forall_rel_of_append_cons_cons.mpr fun a b front back heq => ?_
    have hle' := List.isChain_iff_forall_rel_of_append_cons_cons.mp hle.isChain heq
    have hne' := List.isChain_iff_forall_rel_of_append_cons_cons.mp hne heq
    exact lt_of_le_of_ne hle' fun hkey => hne' (sortKey_injective hkey)
  exact (hlt.imp fun h heq => by rw [heq] at h; exact lt_irrefl _ h).sublist (List.take_sublist _ _)

theorem length_select_le (interfaces : List IpAddr) (endpoints : List Bound) :
    (select interfaces endpoints).length ≤ maxDirectAddresses :=
  List.length_take_le _ _

variable {interfaces : List IpAddr} {endpoints : List Bound}

theorem mem_select {a : SocketAddr} (h : a ∈ select interfaces endpoints) :
    ∃ ip ∈ interfaces, ∃ bound ∈ endpoints, candidateIp ip ∧ ip.isIpv4 = bound.val.isIpv4 ∧
      a = .new ip bound.val.port := by
  have hmem : a ∈ interfaces.flatMap (interfaceAddresses endpoints) :=
    (List.mem_insertionSort _).mp ((List.destutter_sublist _ _).subset (List.mem_of_mem_take h))
  obtain ⟨ip, hip, ha⟩ := List.mem_flatMap.mp hmem
  unfold interfaceAddresses at ha
  split at ha
  · next hcandidate =>
    obtain ⟨bound, hbound, hsome⟩ := List.mem_filterMap.mp ha
    split at hsome
    · next hfamily => exact ⟨ip, hip, bound, hbound, hcandidate, hfamily, (Option.some.inj hsome).symm⟩
    · cases hsome
  · cases ha

theorem hex_toHex (fingerprint : Fingerprint) :
    fingerprint.toHex.bytes.length = 64 ∧
      fingerprint.toHex.bytes.all DirectOffer.isAsciiHexdigit := by
  have hdigit : ∀ n < 16, ∃ byte, String.utf8EncodeChar (Json.hexDigit n) = [byte] ∧
      DirectOffer.isAsciiHexdigit byte := by
    intro n hn
    interval_cases n <;> exact ⟨_, rfl, by decide⟩
  have hbytes : ∀ bytes : List UInt8,
      (Text.bytes (bytes.flatMap fun byte =>
        [Json.hexDigit (byte.toNat / 16), Json.hexDigit (byte.toNat % 16)])).length =
          2 * bytes.length ∧
      (Text.bytes (bytes.flatMap fun byte =>
        [Json.hexDigit (byte.toNat / 16), Json.hexDigit (byte.toNat % 16)])).all
          DirectOffer.isAsciiHexdigit := by
    intro bytes
    induction bytes with
    | nil => exact ⟨rfl, rfl⟩
    | cons byte bytes ih =>
      have hlt := byte.toNat_lt
      obtain ⟨high, hhigh, hhigh'⟩ := hdigit (byte.toNat / 16) (by omega)
      obtain ⟨low, hlow, hlow'⟩ := hdigit (byte.toNat % 16) (by omega)
      obtain ⟨hlength, hall⟩ := ih
      unfold Text.bytes at hlength hall ⊢
      rw [List.flatMap_cons, List.flatMap_append]
      simp only [List.flatMap_cons, List.flatMap_nil, hhigh, hlow, List.append_nil,
        List.nil_append, List.cons_append, List.length_cons, List.all_cons, hhigh', hlow',
        hall, hlength, Bool.and_self, and_true]
      omega
  have h := hbytes fingerprint.bytes
  rw [fingerprint.length_eq] at h
  exact h

theorem select_valid (session : Uuid) (id : UuidV7) (fingerprint : Fingerprint)
    (h : select interfaces endpoints ≠ []) :
    DirectOffer.Valid { DirectOffer.listening session id fingerprint with
      addresses := select interfaces endpoints } session where
  version := rfl
  session := rfl
  id := id.id_ne_zero
  nonempty := h
  length_le := length_select_le interfaces endpoints
  length_pin := (hex_toHex fingerprint).1
  hex_pin := (hex_toHex fingerprint).2
  usable := by
    intro a ha
    obtain ⟨ip, -, bound, -, hcandidate, -, rfl⟩ := mem_select ha
    refine ⟨?_, ?_, SocketAddr.scopeId_new ip _⟩
    · rw [SocketAddr.port_new]
      exact bound.property
    · rw [SocketAddr.ip_new]
      exact hcandidate
  nodup := nodup_select interfaces endpoints

theorem parse_select {a : SocketAddr}
    (ha : a ∈ select interfaces endpoints) : SocketAddr.parse a.text = some a := by
  obtain ⟨ip, -, bound, -, -, -, rfl⟩ := mem_select ha
  rw [SocketAddr.parse_text]
  cases ip <;> rfl

/-! ### The message -/

namespace DirectOffer

theorem length_candidates (index : ℕ) (l : List SocketAddr) :
    (candidates index l).length = l.length := by
  induction l generalizing index with
  | nil => rfl
  | cons a l ih => rw [candidates, List.length_cons, ih, List.length_cons]

theorem priority_le {index : ℕ} {l : List SocketAddr} :
    ∀ c ∈ candidates index l, c.priority.toNat ≤ maxDirectAddresses - index := by
  induction l generalizing index with
  | nil => simp [candidates]
  | cons a l ih =>
    intro c hc
    rcases List.mem_cons.mp hc with rfl | hc
    · exact Nat.mod_le _ _
    · have := ih c hc
      omega

theorem candidates_sorted (index : ℕ) (l : List SocketAddr) :
    (candidates index l).Pairwise fun c c' => c.priority ≥ c'.priority := by
  induction l generalizing index with
  | nil => exact List.Pairwise.nil
  | cons a l ih =>
    rw [candidates]
    refine List.pairwise_cons.mpr ⟨fun c hc => ?_, ih _⟩
    have hle := priority_le c hc
    have hmax : maxDirectAddresses = 8 := rfl
    refine UInt32.le_iff_toNat_le.mpr ?_
    rw [UInt32.toNat_ofNat_of_lt' (by rw [hmax, UInt32.size]; omega)]
    omega

theorem mapM_candidateAddress {index : ℕ} {l : List SocketAddr}
    (h : ∀ a ∈ l, SocketAddr.parse a.text = some a) :
    (candidates index l).mapM candidateAddress = .ok l := by
  induction l generalizing index with
  | nil => rfl
  | cons a l ih =>
    have ha := h a List.mem_cons_self
    have hrest : (candidates (index + 1) l).mapM candidateAddress = .ok l :=
      ih fun b hb => h b (List.mem_cons_of_mem _ hb)
    rw [candidates, List.mapM_cons, hrest]
    simp [candidateAddress, ha]
    rfl

theorem fits_message (offer : DirectOffer) : offer.message.value.fits 128 := by
  have hcandidates : ∀ (index : ℕ) (l : List SocketAddr),
      Json.fitsAll 126 ((candidates index l).map PathCandidate.value) := by
    intro index l
    induction l generalizing index with
    | nil => rfl
    | cons a l ih =>
      have hlt := (UInt32.ofNat (maxDirectAddresses - index)).toNat_lt
      rw [candidates, List.map_cons, Json.fitsAll, ih]
      simp [PathCandidate.value, CandidateKind.value, Json.Value.fits, Json.fitsFields]
      omega
  have hversion := offer.version.toNat_lt
  simp [message, PathCandidates.value, DirectPathBinding.value, Json.Value.fits, Json.fitsFields,
    hcandidates]
  omega

open Json in
theorem utf8Size_of_alphabet {s : List Char} (h : ∀ c ∈ s, c ∈ alphabet) :
    utf8Size s = s.length := by
  have hone : ∀ c ∈ alphabet, c.utf8Size = 1 := List.all_iff_forall_prop.mp (by decide)
  induction s with
  | nil => rfl
  | cons c s ih =>
    rw [utf8Size_cons, hone c (h c List.mem_cons_self),
      ih fun c' hc' => h c' (List.mem_cons_of_mem _ hc'), List.length_cons]
    omega

open Json in
theorem utf8Size_candidate_le (a : SocketAddr) (priority : UInt32) :
    utf8Size (PathCandidate.value ⟨a.text, .host, priority⟩).text ≤ 120 := by
  have hplain : ∀ c ∈ alphabet, escape c = [c] := List.all_iff_forall_prop.mp (by decide)
  have haddr : utf8Size (string a.text) ≤ 63 := by
    rw [utf8Size_string_of_plain fun c hc => hplain c (a.text_alphabet c hc),
      utf8Size_of_alphabet a.text_alphabet]
    have := a.length_text_le
    omega
  have hpriority : utf8Size (Nat.toDigits 10 priority.toNat) ≤ 10 := by
    rw [utf8Size_of_alphabet (toDigits_alphabet (by decide) (by decide) _)]
    exact length_toDigits_le (by decide) (by decide) (by have := priority.toNat_lt; omega)
  have haddrName : utf8Size (string "addr".toList) = 6 := rfl
  have hkindName : utf8Size (string "kind".toList) = 6 := rfl
  have hpriorityName : utf8Size (string "priority".toList) = 10 := rfl
  have hkind : utf8Size (string CandidateKind.host.name) = 6 := rfl
  rw [PathCandidate.value, Value.text, utf8Size_object]
  simp only [fieldTexts, Value.text, CandidateKind.value, List.map_cons, List.map_nil,
    List.sum_cons, List.sum_nil, List.length_cons, List.length_nil, haddrName, hkindName,
    hpriorityName, hkind]
  omega

open Json in
theorem utf8Size_binding_le (binding : DirectPathBinding) {session listener : ℕ}
    (hsession : binding.session = uuid session) (hlistener : binding.listener = uuid listener) :
    utf8Size binding.value.text ≤ 6 * utf8Size binding.certificatePin + 140 := by
  have hversion : utf8Size (Nat.toDigits 10 binding.version.toNat) ≤ 3 := by
    rw [utf8Size_of_alphabet (toDigits_alphabet (by decide) (by decide) _)]
    exact length_toDigits_le (by decide) (by decide) (by have := binding.version.toNat_lt; omega)
  have hpin := utf8Size_string_le binding.certificatePin
  have hversionName : utf8Size (string "version".toList) = 9 := rfl
  have hsessionName : utf8Size (string "session".toList) = 9 := rfl
  have hlistenerName : utf8Size (string "listener".toList) = 10 := rfl
  have hpinName : utf8Size (string "certificate_pin".toList) = 17 := rfl
  rw [DirectPathBinding.value, Value.text, utf8Size_object]
  simp only [fieldTexts, Value.text, List.map_cons, List.map_nil, List.sum_cons, List.sum_nil,
    List.length_cons, List.length_nil, hversionName, hsessionName, hlistenerName, hpinName,
    hsession, hlistener, utf8Size_string_uuid]
  omega

open Json in
theorem utf8Size_message_le (offer : DirectOffer)
    (hlength : offer.addresses.length ≤ maxDirectAddresses) :
    utf8Size offer.message.value.text ≤ 6 * utf8Size offer.certificatePin + 1300 := by
  have hcandidates : ∀ (index : ℕ) (l : List SocketAddr),
      ((texts ((candidates index l).map PathCandidate.value)).map utf8Size).sum ≤ 120 * l.length ∧
        (texts ((candidates index l).map PathCandidate.value)).length = l.length := by
    intro index l
    induction l generalizing index with
    | nil => exact ⟨le_rfl, rfl⟩
    | cons a l ih =>
      obtain ⟨hsum, hcount⟩ := ih (index + 1)
      have ha := utf8Size_candidate_le a (UInt32.ofNat (maxDirectAddresses - index))
      rw [candidates, List.map_cons, texts, List.map_cons, List.sum_cons, List.length_cons,
        List.length_cons, hcount]
      exact ⟨by omega, rfl⟩
  obtain ⟨hsum, hcount⟩ := hcandidates 0 offer.addresses
  have hbinding := utf8Size_binding_le
    { version := offer.version
      session := uuid offer.session.val
      listener := uuid offer.id.val
      certificatePin := offer.certificatePin } rfl rfl
  have htag : utf8Size (string "t".toList) = 3 := rfl
  have hname : utf8Size (string "path_candidates".toList) = 17 := rfl
  have hcandidatesName : utf8Size (string "candidates".toList) = 12 := rfl
  have hbindingName : utf8Size (string "direct_binding".toList) = 16 := rfl
  have hmax : maxDirectAddresses = 8 := rfl
  rw [PathCandidates.value, message, Value.text, utf8Size_object]
  simp only [Option.map_some, Option.toList_some, fieldTexts, Value.text, List.map_cons,
    List.map_nil, List.sum_cons, List.sum_nil, List.length_cons, List.length_nil, htag, hname,
    hcandidatesName, hbindingName, utf8Size_array, hcount]
  simp only at hbinding
  omega

theorem decode_encode (codec : SignalCodec) {offer : DirectOffer}
    (hvalid : offer.Valid offer.session)
    (htexts : ∀ a ∈ offer.addresses, SocketAddr.parse a.text = some a) :
    ∃ payload, offer.encode = .ok payload ∧ payload.length ≤ 4096 ∧
      decode codec payload = .ok offer := by
  have hlength : (Json.utf8 offer.message.value.text).length ≤ 4096 := by
    have hsize := utf8Size_message_le offer hvalid.length_le
    have hpin := hvalid.length_pin
    rw [length_bytes] at hpin
    rw [Json.utf8, Json.length_utf8Encode]
    omega
  refine ⟨Json.utf8 offer.message.value.text, ?_, hlength, ?_⟩
  · rw [encode, (validate_ok_iff offer offer.session).mpr hvalid]
    rfl
  have hread : codec.json.read (Json.utf8 offer.message.value.text) =
      some offer.message.value := by
    have := codec.json.read_text offer.message.value [] offer.fits_message (by simp)
    rwa [List.append_nil] at this
  have hsorted := (candidates_sorted 0 offer.addresses).insertionSort_eq
  have haddresses : (candidates 0 offer.addresses).mapM candidateAddress = .ok offer.addresses :=
    mapM_candidateAddress htexts
  have hcount : ¬ maxDirectAddresses < (candidates 0 offer.addresses).length := by
    rw [length_candidates]
    exact Nat.not_lt.mpr hvalid.length_le
  rw [decode, if_neg (Nat.not_lt.mpr hlength), hread]
  simp only [PathCandidates.ofValue_value]
  simp only [message, if_neg hcount, hsorted, haddresses, parseUuid, codec.uuids.parse_uuid]
  rfl

theorem validate_session {offer : DirectOffer} (h : offer.Valid offer.session) (session : Uuid) :
    offer.validate session = .ok () ↔ session = offer.session := by
  rw [validate_ok_iff]
  exact ⟨fun hvalid => hvalid.session.symm, fun heq => heq ▸ h⟩

/-! ### A codec -/

def sampleCodec : SignalCodec where
  json := Json.reader
  otherMessage := fun _ => false
  uuids := uuidReader

def sampleIpv4 (a b c d : ℕ) (h : ∀ n ∈ [a, b, c, d], n < 256) : Ipv4 := ⟨[a, b, c, d], rfl, h⟩

/-- `2001:db8::n`. -/
def sampleIpv6 (n : ℕ) (h : n < 65536) : Ipv6 :=
  ⟨[0x2001, 0xdb8, 0, 0, 0, 0, 0, n], rfl, by simpa using h⟩

/-- Two interfaces with an address of each family, and the loopback. -/
def sampleInterfaces : List IpAddr :=
  [.v6 (sampleIpv6 7 (by decide)), .v4 (sampleIpv4 127 0 0 1 (by decide)),
   .v4 (sampleIpv4 192 168 1 2 (by decide)), .v6 (sampleIpv6 5 (by decide)),
   .v4 (sampleIpv4 10 20 30 40 (by decide))]

def sampleEndpoints : List Bound :=
  [⟨.v4 (sampleIpv4 0 0 0 0 (by decide)) 1234, by decide⟩,
   ⟨.v6 ⟨List.replicate 8 0, rfl, by simp⟩ 1235 0 0, by decide⟩]

def sampleSelected : List SocketAddr :=
  [.v4 (sampleIpv4 10 20 30 40 (by decide)) 1234, .v4 (sampleIpv4 192 168 1 2 (by decide)) 1234,
   .v6 (sampleIpv6 5 (by decide)) 1235 0 0, .v6 (sampleIpv6 7 (by decide)) 1235 0 0]

theorem select_sample : select sampleInterfaces sampleEndpoints = sampleSelected := by
  decide

/-- Whatever the agent selects, its offer passes the checks at both ends, fits the limit and comes
out of its message as it went in, for its own session alone. -/
theorem published_usable (codec : SignalCodec) (session : Uuid) (id : UuidV7)
    (fingerprint : Fingerprint) (old : List SocketAddr) (interfaces : List IpAddr)
    (endpoints : List Bound) (h : select interfaces endpoints ≠ []) :
    let offer := { listening session id fingerprint with
      addresses := select interfaces endpoints }
    offer.validate session = .ok () ∧
      ∃ payload, offer.encode = .ok payload ∧ payload.length ≤ 4096 ∧
        publish { listening session id fingerprint with addresses := old } interfaces endpoints =
          (offer, .ok (some payload)) ∧
        ∃ decoded, decode codec payload = .ok decoded ∧ decoded = offer ∧
          (∀ s, decoded.validate s = .ok () ↔ s = session) ∧
          ∀ s, receive codec s payload = if s = session then some offer else none := by
  intro offer
  have hvalid : offer.Valid session := select_valid session id fingerprint h
  have hself : offer.validate offer.session = .ok () := (validate_ok_iff offer session).mpr hvalid
  obtain ⟨payload, hencode, hlength, hdecode⟩ :=
    decode_encode codec (show offer.Valid offer.session from hvalid) fun a ha => parse_select ha
  have hsession : ∀ s, offer.validate s = .ok () ↔ s = session := validate_session hvalid
  refine ⟨hself, payload, hencode, hlength, ?_, offer, hdecode, rfl, hsession, fun s => ?_⟩
  · simp only [publish, if_neg h]
    show (offer, (do
      offer.validate offer.session
      let payload ← offer.encode
      Except.ok (some payload))) = _
    rw [hself, hencode]
    rfl
  · rw [receive, hdecode]
    simp only [hsession]

theorem published_usable_sample :
    ∃ payload, ({ listening 5 ⟨⟨7 * 16 ^ 19, by decide⟩, by decide⟩ ⟨List.replicate 32 0xab, rfl⟩ with
        addresses := sampleSelected } : DirectOffer).encode = .ok payload ∧
      (decode sampleCodec payload).map DirectOffer.addresses = .ok sampleSelected := by
  obtain ⟨-, payload, hencode, -, -, decoded, hdecode, rfl, -⟩ :=
    published_usable sampleCodec 5 ⟨⟨7 * 16 ^ 19, by decide⟩, by decide⟩
      ⟨List.replicate 32 0xab, rfl⟩ [] sampleInterfaces sampleEndpoints
      (by rw [select_sample]; exact List.cons_ne_nil _ _)
  rw [select_sample] at hencode hdecode
  exact ⟨payload, hencode, by rw [hdecode]; rfl⟩

end DirectOffer

end NebulaDesk
