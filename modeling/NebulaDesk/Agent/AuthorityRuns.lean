/-
No gateway widens what the manager has signed, in every run of an agent.

A request that is admitted has no ticket and is for a desktop, or its ticket is one of the
manager's; a session is served only to a client that presents that ticket, and a ticket for
an application is never compared equal to a desktop.
-/
import NebulaDesk.Agent.Authority

namespace NebulaDesk

namespace Authority

variable {reader : Reader} {codec : LaunchCodec} {signed : TicketKey → SignedClaims → Prop}
  {published : TicketAuthority → Prop} {request : SessionRequest} {claims : SignedClaims}
  {machine : ℕ} {agentKey : Text}

/-! ### Tickets -/

theorem dot_notMem_encode {bytes : List UInt8} : '.' ∉ Base64.encode bytes := by
  intro h
  exact absurd (Base64.mem_alphabet_of_mem_encode h) (by decide)

theorem splitOn_sign {key : TicketKey} : (key.sign claims).splitOn '.' =
    [Base64.encode key.header.bytes, Base64.encode claims.json.bytes,
      Base64.encode (key.signature (key.message claims).bytes)] := by
  rw [TicketKey.sign, TicketKey.message, List.append_assoc, List.cons_append,
    List.splitOn_append_cons_self_of_not_mem dot_notMem_encode,
    List.splitOn_append_cons_self_of_not_mem dot_notMem_encode,
    List.splitOn_eq_singleton dot_notMem_encode]

theorem of_guard {p : Prop} [Decidable p] {u : Unit} (h : (guard p : Option Unit) = some u) :
    p := by
  unfold guard at h
  split at h
  · assumption
  · cases h

theorem grants_of_agrees (h : request.agrees machine agentKey claims = true) :
    Grants machine agentKey claims request := by
  simp only [SessionRequest.agrees, Bool.and_eq_true, decide_eq_true_eq] at h
  obtain ⟨⟨⟨⟨⟨⟨⟨⟨hmid, hkey⟩, hsid⟩, hrid⟩, hrole⟩, hpolicy⟩, htarget⟩, haddr⟩, hpin⟩ := h
  exact ⟨hmid, hkey, hsid, hrid, hrole, hpolicy, htarget, haddr, hpin⟩

/-- The ticket of a request is one that the manager has signed for it. -/
structure Verified (signed : TicketKey → SignedClaims → Prop) (codec : LaunchCodec) (machine : ℕ)
    (agentKey : Text) (request : SessionRequest) (now : ℤ) : Prop where
  ticket : ∃ k claims, signed k claims ∧ request.signedTicket = some (k.sign claims) ∧
    claims.isValidAt now = true ∧ Grants machine agentKey claims request ∧
    claims.launchTarget.validate codec claims.rid claims.policy = true

theorem Trusted.verified {authority : TicketAuthority} {now : ℤ × ℤ}
    (ht : Trusted reader signed published) (hpublished : published authority)
    (h : (request.verifySignedAuthority reader codec authority machine agentKey now).isSome) :
    Verified signed codec machine agentKey request now.2 := by
  obtain ⟨claims, h⟩ := Option.isSome_iff_exists.mp h
  unfold SessionRequest.verifySignedAuthority at h
  obtain ⟨token, htoken, h⟩ := Option.bind_eq_some_iff.mp h
  obtain ⟨header, -, h⟩ := Option.bind_eq_some_iff.mp h
  obtain ⟨_, -, h⟩ := Option.bind_eq_some_iff.mp h
  obtain ⟨kid, -, h⟩ := Option.bind_eq_some_iff.mp h
  obtain ⟨jwk, hjwk, h⟩ := Option.bind_eq_some_iff.mp h
  obtain ⟨key, hkey, h⟩ := Option.bind_eq_some_iff.mp h
  obtain ⟨read, hread, h⟩ := Option.bind_eq_some_iff.mp h
  obtain ⟨_, hvalid, h⟩ := Option.bind_eq_some_iff.mp h
  obtain ⟨_, htarget, h⟩ := Option.bind_eq_some_iff.mp h
  obtain rfl := Option.some.inj h
  obtain ⟨k, hsigned, rfl⟩ := ht.unforgeable authority hpublished jwk
    (List.mem_of_find?_eq_some hjwk) key _ _ token read hkey hread
  obtain ⟨htime, hagrees⟩ := Bool.and_eq_true_iff.mp (of_guard hvalid)
  exact ⟨k, read, hsigned, htoken, htime, grants_of_agrees hagrees, of_guard htarget⟩

/-- A request that is accepted, with the times of its verifications. -/
def Admitted (signed : TicketKey → SignedClaims → Prop) (codec : LaunchCodec) (machine : ℕ)
    (agentKey : Text) (request : SessionRequest) (clocks : Clocks) : Prop :=
  (request.signedTicket = none ∧ request.launchTarget.isApplication = false) ∨
    Verified signed codec machine agentKey request clocks.cached.2 ∨
    Verified signed codec machine agentKey request clocks.fresh.2

variable {clocks : Clocks} {payload : List UInt8}

theorem Trusted.admitted {signing signing' : Option CachedKeys}
    {answer : Answer published} {result : Except AuthorityError Unit}
    (ht : Trusted reader signed published)
    (hsigning : ∀ keys, signing = some keys → published keys.authority)
    (h : verifySessionAuthority reader codec signing request machine agentKey clocks answer =
      (result, signing')) :
    (∀ keys, signing' = some keys → published keys.authority) ∧
      (result = .ok () → Admitted signed codec machine agentKey request clocks) := by
  unfold verifySessionAuthority at h
  split at h
  · next hlegacy =>
    obtain ⟨hnone, hdesktop⟩ := Bool.and_eq_true_iff.mp hlegacy
    cases h
    refine ⟨hsigning, fun _ => .inl ⟨Option.isNone_iff_eq_none.mp hnone, ?_⟩⟩
    simpa using hdesktop
  split at h
  · cases h
    exact ⟨hsigning, nofun⟩
  split at h
  · next hcached =>
    obtain ⟨keys, hkeys, hverified⟩ := (Option.any_eq_true ..).mp hcached
    cases h
    refine ⟨hsigning, fun _ => .inr (.inl ?_)⟩
    exact ht.verified (hsigning keys hkeys) (Bool.and_eq_true_iff.mp hverified).2
  split at h
  · cases h
    exact ⟨hsigning, nofun⟩
  · cases h
    exact ⟨hsigning, nofun⟩
  · next authority =>
    cases h
    refine ⟨fun keys hkeys => ?_, fun hok => ?_⟩
    · cases hkeys
      exact authority.property
    · split at hok
      · next hverified => exact .inr (.inr (ht.verified authority.property hverified))
      · cases hok

/-! ### The handshake -/

/-- What a client has presented when its handshake is accepted. -/
structure Binds (reader : Reader) (request : SessionRequest) (payload : List UInt8)
    (ticket : Text) : Prop where
  presented : presented reader payload = .ok ticket
  admitted : ∀ admitted, request.signedTicket = some admitted → ticket = admitted
  compared : compareTarget reader request ticket = .ok ()

theorem binds_of_ok (h : bindSessionTicket reader request payload = .ok ()) :
    ∃ ticket, Binds reader request payload ticket := by
  unfold bindSessionTicket at h
  split at h
  · cases h
  next ticket hpresented =>
  split at h
  · next admitted hadmitted =>
    split at h
    · cases h
    next hsame =>
    refine ⟨ticket, hpresented, fun other hother => ?_, h⟩
    rw [hadmitted] at hother
    rw [← Option.some.inj hother]
    exact not_not.mp hsame
  · next hnone =>
    split at h
    · cases h
    refine ⟨ticket, hpresented, fun other hother => ?_, h⟩
    rw [hnone] at hother
    cases hother

theorem Trusted.compared {k : TicketKey} (ht : Trusted reader signed published)
    (hsigned : signed k claims) (h : compareTarget reader request (k.sign claims) = .ok ()) :
    claims.launchTarget = request.launchTarget := by
  obtain ⟨value, target, hvalue, hobject, hget, htarget⟩ := ht.read k claims hsigned
  have hclaimed : claimedTarget reader value = some claims.launchTarget := by
    unfold claimedTarget
    rw [hget]
    exact htarget
  unfold compareTarget at h
  simp only [splitOn_sign, Base64.decode_encode, hvalue, hobject, hclaimed] at h
  rw [if_neg (by decide)] at h
  split at h
  · cases h
  · next hsame => exact not_not.mp fun hne => hsame (.inl hne)

/-! ### Every run -/

structure Inv (reader : Reader) (codec : LaunchCodec)
    (signed : TicketKey → SignedClaims → Prop) (published : TicketAuthority → Prop) (machine : ℕ)
    (agentKey : Text) (s : Authority) : Prop where
  signing : ∀ keys, s.signing = some keys → published keys.authority
  admitted : ∀ a ∈ s.admitted, Admitted signed codec machine agentKey a.1 a.2
  served : ∀ x ∈ s.served, Admitted signed codec machine agentKey x.request x.clocks ∧
    (∃ ticket, Binds reader x.request x.payload ticket) ∧ x.service = pumpMedia codec x.request

theorem inv_start : Inv reader codec signed published machine agentKey start where
  signing _ h := nomatch h
  admitted _ h := nomatch h
  served _ h := nomatch h

variable {s s' : Authority} {e : Event published}

theorem Inv.step (ht : Trusted reader signed published)
    (h : Inv reader codec signed published machine agentKey s)
    (hs : s.step reader codec machine agentKey e = some s') :
    Inv reader codec signed published machine agentKey s' := by
  cases e with
  | startSession request clocks answer =>
    cases hverify : verifySessionAuthority reader codec s.signing request machine agentKey clocks
      answer with
    | mk result signing =>
      obtain ⟨hsigning, hadmitted⟩ := ht.admitted h.signing hverify
      simp only [Authority.step, hverify] at hs
      split at hs <;> cases hs
      · refine ⟨hsigning, fun a ha => ?_, h.served⟩
        rcases List.mem_cons.mp ha with rfl | ha
        · exact hadmitted rfl
        · exact h.admitted a ha
      · exact ⟨hsigning, h.admitted, h.served⟩
  | accept request clocks payload =>
    simp only [Authority.step] at hs
    split at hs
    · next hmem =>
      split at hs <;> cases hs
      next hbind _ =>
      refine ⟨h.signing, h.admitted, fun x hx => ?_⟩
      rcases List.mem_cons.mp hx with rfl | hx
      · exact ⟨h.admitted _ hmem, binds_of_ok hbind, rfl⟩
      · exact h.served x hx
    · cases hs

theorem inv_of_reach (ht : Trusted reader signed published)
    (hr : Runs.Reach (@step reader codec published machine agentKey) start s) :
    Inv reader codec signed published machine agentKey s :=
  hr.invariant inv_start fun _ _ _ h hs => h.step ht hs

theorem of_validate_application {resource rid : ℕ} {version : Text} {launch : ApplicationLaunch}
    {policy : SessionPolicy}
    (h : (LaunchTarget.application resource version launch).validate codec rid policy = true) :
    resource = rid ∧ version = launch.version codec ∧ policy = applicationPolicy policy ∧
      launch.validate codec = true := by
  simp only [LaunchTarget.validate, Bool.and_eq_true, decide_eq_true_eq] at h
  obtain ⟨⟨⟨⟨⟨hresource, -⟩, -⟩, hversion⟩, hpolicy⟩, hlaunch⟩ := h
  exact ⟨hresource, hversion, hpolicy, hlaunch⟩

theorem Admitted.ticket {ticket : Text} (ha : Admitted signed codec machine agentKey request clocks)
    (hb : Binds reader request payload ticket)
    (hneeded : request.signedTicket.isSome = true ∨ request.launchTarget.isApplication = true) :
    ∃ k claims, signed k claims ∧ presented reader payload = .ok (k.sign claims) ∧
      request.signedTicket = some (k.sign claims) ∧
      (claims.isValidAt clocks.cached.2 = true ∨ claims.isValidAt clocks.fresh.2 = true) ∧
      Grants machine agentKey claims request ∧
      claims.launchTarget.validate codec claims.rid claims.policy = true := by
  rcases ha with ⟨hnone, hdesktop⟩ | hverified | hverified
  · rcases hneeded with hsome | happlication
    · rw [hnone] at hsome
      cases hsome
    · rw [hdesktop] at happlication
      cases happlication
  · obtain ⟨k, claims, hsigned, hticket, htime, hgrants, hvalid⟩ := hverified.ticket
    refine ⟨k, claims, hsigned, ?_, hticket, .inl htime, hgrants, hvalid⟩
    rw [← hb.admitted _ hticket]
    exact hb.presented
  · obtain ⟨k, claims, hsigned, hticket, htime, hgrants, hvalid⟩ := hverified.ticket
    refine ⟨k, claims, hsigned, ?_, hticket, .inr htime, hgrants, hvalid⟩
    rw [← hb.admitted _ hticket]
    exact hb.presented

theorem bound_of_admitted (ht : Trusted reader signed published)
    (ha : Admitted signed codec machine agentKey request clocks)
    (hb : ∃ ticket, Binds reader request payload ticket) :
    Session.Bound reader codec signed machine agentKey
      ⟨request, clocks, payload, pumpMedia codec request⟩ := by
  obtain ⟨ticket, hb⟩ := hb
  refine ⟨fun hneeded => ?_, fun launch input hservice => ?_, ?_⟩
  · obtain ⟨k, claims, hsigned, hpresented, hticket, htime, hgrants, -⟩ := ha.ticket hb hneeded
    exact ⟨k, claims, hsigned, hpresented, hticket, htime, hgrants⟩
  · cases htarget : request.launchTarget with
    | desktop => simp [pumpMedia, htarget] at hservice
    | application resource version launch' =>
      obtain ⟨k, claims, hsigned, hpresented, -, -, hgrants, hvalid⟩ :=
        ha.ticket hb (.inr (by rw [htarget]; rfl))
      rw [hgrants.launchTarget, htarget] at hvalid
      obtain ⟨rfl, rfl, hpolicy, hlaunch⟩ := of_validate_application hvalid
      simp only [pumpMedia, htarget] at hservice
      split at hservice
      · cases hservice
        have hclaims : claims.policy = ⟨false, false, false, request.policy.input⟩ := by
          rw [hpolicy, applicationPolicy, hgrants.policy]
        refine ⟨k, claims, hsigned, hpresented, hgrants.launchTarget.trans htarget, hlaunch,
          hgrants.policy.symm.trans hclaims, hclaims⟩
      · cases hservice
  · intro k claims hsigned hpresented happlication permitted hdesktop
    -- What is presented has been compared with the target that is served.
    rw [hb.presented] at hpresented
    cases hpresented
    have hsame := ht.compared hsigned hb.compared
    rw [hsame] at happlication
    cases htarget : request.launchTarget with
    | desktop =>
      rw [htarget] at happlication
      cases happlication
    | application resource version launch =>
      simp only [pumpMedia, htarget] at hdesktop
      split at hdesktop <;> cases hdesktop

/-- **No gateway widens what the manager has signed.** -/
theorem sessions_bound (ht : Trusted reader signed published)
    (hr : Runs.Reach (@step reader codec published machine agentKey) start s) :
    ∀ x ∈ s.served, x.Bound reader codec signed machine agentKey := by
  intro x hx
  obtain ⟨hadmitted, hbinds, hservice⟩ := (inv_of_reach ht hr).served x hx
  obtain ⟨request, clocks, payload, service⟩ := x
  dsimp only at hservice hadmitted hbinds
  subst hservice
  exact bound_of_admitted ht hadmitted hbinds

/-! ### Tickets that are served -/

theorem verifySignedAuthority_eq_some {authority : TicketAuthority} {token kid : Text}
    {jwk : WebKey} {key : List UInt8} {now : ℤ × ℤ} (htoken : request.signedTicket = some token)
    (hheader : reader.decodeHeader token = some ⟨.edDsa, some kid⟩)
    (hjwk : authority.jwks.find? (·.isNamed kid) = some jwk)
    (hkey : Base64.decode jwk.x = some key)
    (hdecode : reader.decode key (validation authority.issuer) now.1 token = some claims)
    (hgranted : (claims.isValidAt now.2 && request.agrees machine agentKey claims) = true)
    (hvalid : claims.launchTarget.validate codec claims.rid claims.policy = true) :
    request.verifySignedAuthority reader codec authority machine agentKey now = some claims := by
  unfold SessionRequest.verifySignedAuthority
  simp only [Option.bind_eq_bind, htoken, hheader, hjwk, hkey, hdecode, hgranted, hvalid, guard,
    Option.bind_some, if_true, Option.pure_def]

theorem verifySessionAuthority_fetched {authority : { authority // published authority }}
    {token : Text} (htoken : request.signedTicket = some token)
    (h : request.verifySignedAuthority reader codec authority machine agentKey clocks.fresh =
      some claims) :
    verifySessionAuthority reader codec none request machine agentKey clocks
      (.authority authority) = (.ok (), some ⟨clocks.fetched, authority⟩) := by
  unfold verifySessionAuthority
  simp [htoken, h]

theorem step_start_fetched {authority : { authority // published authority }} {token : Text}
    (htoken : request.signedTicket = some token)
    (h : request.verifySignedAuthority reader codec authority machine agentKey clocks.fresh =
      some claims) :
    start.step reader codec machine agentKey (.startSession request clocks (.authority authority)) =
      some ⟨some ⟨clocks.fetched, authority⟩, [(request, clocks)], []⟩ := by
  simp only [step, start, verifySessionAuthority_fetched htoken h]

theorem Trusted.bind {k : TicketKey} (ht : Trusted reader signed published)
    (hsigned : signed k claims) (hticket : request.signedTicket = some (k.sign claims))
    (hpresented : presented reader payload = .ok (k.sign claims))
    (hsame : claims.launchTarget = request.launchTarget) :
    bindSessionTicket reader request payload = .ok () := by
  obtain ⟨value, target, hvalue, hobject, hget, htarget⟩ := ht.read k claims hsigned
  have hclaimed : claimedTarget reader value = some claims.launchTarget := by
    unfold claimedTarget
    rw [hget]
    exact htarget
  have hcompared : compareTarget reader request (k.sign claims) = .ok () := by
    unfold compareTarget
    simp [splitOn_sign, Base64.decode_encode, hvalue, hobject, hclaimed, hsame, hticket]
  unfold bindSessionTicket
  simp [hpresented, hticket, hcompared]

/-! ### One application -/

def sampleClaims : SignedClaims := sampleSigned.forLaunch (serde sampleSha) sampleLaunch

def sampleToken : Text := sampleTicketKey.sign sampleClaims

/-- The public key whose first bytes are the id of `sampleTicketKey`. -/
def samplePublicKey : List UInt8 :=
  [0xd7, 0x5a, 0x98, 0x01, 0x82, 0xb1, 0x0a, 0xb7, 0xd5, 0x4b, 0xfe, 0xd3, 0xc9, 0x64, 0x07, 0x3a,
    0x0e, 0xe1, 0x72, 0xf3, 0xda, 0xa6, 0x23, 0x25, 0xaf, 0x02, 0x1a, 0x68, 0xf7, 0x07, 0x51, 0x1a]

def sampleAuthority : TicketAuthority where
  issuer := sampleClaims.iss
  jwks := [⟨"OKP".toList, "Ed25519".toList, Base64.encode samplePublicKey, sampleTicketKey.kid,
    "sig".toList, "EdDSA".toList⟩]

/-- Reads the ticket `sampleToken` and the hello that carries it; a value is the target in it. -/
def sampleReader : Reader where
  Value := LaunchTarget
  hello payload := if payload = clientHello sampleToken then some ⟨sampleToken, true⟩ else none
  value bytes := if bytes = sampleClaims.json.bytes then some sampleClaims.launchTarget else none
  isObject _ := true
  get value key := if key = "launch_target".toList then some value else none
  target := some
  decodeHeader token :=
    if token = sampleToken then some ⟨.edDsa, some sampleTicketKey.kid⟩ else none
  decode key v now token :=
    if key = samplePublicKey ∧ v = validation sampleClaims.iss ∧ now ≤ 100 ∧
        token = sampleToken then
      some sampleClaims
    else none

def sampleRequest : SessionRequest where
  session := sampleClaims.sid
  resourceId := sampleClaims.rid
  launchTarget := sampleClaims.launchTarget
  signedTicket := some sampleToken
  policy := sampleClaims.policy
  role := sampleClaims.role
  relayAddr := sampleClaims.relayAddr
  relayPin := sampleClaims.relayPin

def sampleSignedBy (key : TicketKey) (claims : SignedClaims) : Prop :=
  key = sampleTicketKey ∧ claims = sampleClaims

theorem sampleTrusted : Trusted sampleReader sampleSignedBy (· = sampleAuthority) where
  unforgeable := by
    intro _ _ _ _ key v now token claims _ hdecode
    simp only [sampleReader] at hdecode
    split at hdecode <;> cases hdecode
    next htoken => exact ⟨sampleTicketKey, ⟨rfl, rfl⟩, htoken.2.2.2⟩
  read := by
    rintro _ _ ⟨rfl, rfl⟩
    refine ⟨sampleClaims.launchTarget, sampleClaims.launchTarget, ?_, rfl, ?_, rfl⟩
    · simp only [sampleReader, if_true]
    · simp only [sampleReader, if_true]

def sampleClocks : Clocks := ⟨0, 1, (20, 20), (20, 20)⟩

theorem sample_isNamed : sampleAuthority.jwks.find? (·.isNamed sampleTicketKey.kid) =
    some ⟨"OKP".toList, "Ed25519".toList, Base64.encode samplePublicKey, sampleTicketKey.kid,
      "sig".toList, "EdDSA".toList⟩ := by
  decide +kernel

theorem sample_validate : sampleClaims.launchTarget.validate (serde sampleSha) sampleClaims.rid
    sampleClaims.policy = true := by
  decide +kernel

theorem sample_verified : sampleRequest.verifySignedAuthority sampleReader (serde sampleSha)
    sampleAuthority 1 (List.replicate 64 'a') (20, 20) = some sampleClaims := by
  have hheader : sampleReader.decodeHeader sampleToken =
      some ⟨.edDsa, some sampleTicketKey.kid⟩ := by
    simp only [sampleReader, if_true]
  have hdecode : sampleReader.decode samplePublicKey (validation sampleAuthority.issuer) 20
      sampleToken = some sampleClaims := by
    simp only [sampleReader, sampleAuthority]
    exact if_pos ⟨trivial, trivial, by decide, trivial⟩
  exact verifySignedAuthority_eq_some rfl hheader sample_isNamed
    (Base64.decode_encode samplePublicKey) hdecode (by decide +kernel) sample_validate

theorem sample_presented : presented sampleReader (clientHello sampleToken) = .ok sampleToken := by
  have hhello : sampleReader.hello (clientHello sampleToken) = some ⟨sampleToken, true⟩ := by
    simp only [sampleReader, if_true]
  have hbrace : (clientHello sampleToken).head? = some 123 := rfl
  rw [presented, if_pos hbrace, hhello]

theorem sample_multipath : sessionMultipath sampleReader (clientHello sampleToken) = .ok true := by
  have hhello : sampleReader.hello (clientHello sampleToken) = some ⟨sampleToken, true⟩ := by
    simp only [sampleReader, if_true]
  have hbrace : (clientHello sampleToken).head? = some 123 := rfl
  rw [sessionMultipath, if_pos hbrace, hhello]
  rfl

theorem sample_pumpMedia :
    pumpMedia (serde sampleSha) sampleRequest = .application sampleLaunch true := by
  have htarget : sampleRequest.launchTarget =
      .application sampleClaims.rid (sampleLaunch.version (serde sampleSha)) sampleLaunch := rfl
  unfold pumpMedia
  rw [htarget]
  exact if_pos sample_validate

def sampleAdmitted : Authority := ⟨some ⟨1, sampleAuthority⟩, [(sampleRequest, sampleClocks)], []⟩

theorem sample_admitted : start.step sampleReader (serde sampleSha) 1 (List.replicate 64 'a')
    (.startSession sampleRequest sampleClocks (.authority ⟨sampleAuthority, rfl⟩) :
      Event (· = sampleAuthority)) = some sampleAdmitted := by
  exact step_start_fetched rfl sample_verified

def sampleSession : Session where
  request := sampleRequest
  clocks := sampleClocks
  payload := clientHello sampleToken
  service := .application sampleLaunch true

theorem sample_accepted : sampleAdmitted.step sampleReader (serde sampleSha) 1
    (List.replicate 64 'a') (.accept sampleRequest sampleClocks (clientHello sampleToken) :
      Event (· = sampleAuthority)) = some { sampleAdmitted with served := [sampleSession] } := by
  have hbind : bindSessionTicket sampleReader sampleRequest (clientHello sampleToken) = .ok () :=
    sampleTrusted.bind ⟨rfl, rfl⟩ rfl sample_presented rfl
  simp only [step, hbind, sample_multipath, sample_pumpMedia]
  exact if_pos (List.mem_singleton_self _)

/-- The gateway sends the ticket of `sampleLaunch`, and the client presents it. -/
theorem sessions_bound_application : ∃ s,
    Runs.Reach (@step sampleReader (serde sampleSha) (· = sampleAuthority) 1
      (List.replicate 64 'a')) start s ∧
    ∃ x ∈ s.served, x.service = .application sampleLaunch true ∧
      x.Bound sampleReader (serde sampleSha) sampleSignedBy 1 (List.replicate 64 'a') := by
  have hr := (Runs.Reach.init.step _ sample_admitted).step _ sample_accepted
  exact ⟨_, hr, sampleSession, List.mem_singleton_self _, rfl,
    sessions_bound sampleTrusted hr sampleSession (List.mem_singleton_self _)⟩

end Authority

end NebulaDesk
