/-
A ticket opens at most one session (`nebula-gateway/src/tickets.rs`).

The replay table forgets an entry once its acceptance window has passed, by the
reading of the clock of whoever prunes it.  A task that read the clock earlier and
takes the lock later may find its ticket forgotten and spend it once more
(`ticket_spent_twice`).  `ticket_opens_one_session` says that no ticket is spent
twice in a run in which every `consume` takes the lock before anybody pruned with
a reading past its ticket's window (`timely`).
-/
import NebulaDesk.Gateway.Turns

namespace NebulaDesk

namespace ClientTask

/-- The ticket a task holds and what it says, until the session is started. -/
def ticket : ClientTask → Option (String × TicketClaims)
  | verified h claims | spent h claims | consuming claims _ (.lookup h) => some (h.ticket, claims)
  | matched claims request _ | sending claims request _ | consuming claims _ (.send request _) =>
    some (request.signedTicket, claims)
  | _ => none

/-- The ticket of a task that has spent it and not used it yet. -/
def owes : ClientTask → Option TicketClaims
  | spent _ claims | sending claims _ _ => some claims
  | _ => none

/-- The task has queued its request. -/
def sent : ClientTask → Bool
  | accepting .. | brokered .. | stopping .. | reporting _ | departed _ => true
  | _ => false

/-- The task may have spent a ticket. -/
def past : ClientTask → Bool
  | spent .. | sending .. => true
  | rejected reason => reason ≠ "application windows are not supported"
  | task => task.sent

/-- A ticket that the task is to spend, or has spent, before its lookup. -/
def early : ClientTask → Option TicketClaims
  | spent _ claims | consuming claims _ (.lookup _) => some claims
  | _ => none

theorem past_of_sent {task : ClientTask} (h : task.sent = true) : task.past = true := by
  cases task <;> first | exact h | cases h

end ClientTask

/-- The message starts a session for this ticket id. -/
def Enqueued.starts (decode : String → Option TicketClaims) (jti : ℕ) (e : Enqueued) : Bool :=
  match e.message with
  | .startSession request => (decode request.signedTicket).any (·.jti = jti)
  | .stopSession _ => false

namespace Gateway

variable {codec : LaunchCodec} {decode : String → Option TicketClaims} {g g' : Gateway} {c : ℕ}
variable {claims : TicketClaims} {now : ℤ} {next : Admission}
variable {request : SessionRequest} {e : ClientEvent} {tunnel : Tunnel}

theorem signedTicket_of_ok {h : ClientHello} {windows : Bool}
    (hrequest : sessionRequest codec claims h windows = .ok request) :
    request.signedTicket = h.ticket := by
  unfold sessionRequest at hrequest
  split at hrequest
  · cases hrequest
  · split at hrequest
    · cases hrequest
    · rw [← Except.ok.inj hrequest]

theorem reason_of_desktop {h : ClientHello} {windows : Bool}
    {reason : String} (hrequest : sessionRequest codec claims h windows = .error reason)
    (happ : claims.launchTarget.isApplication = false) :
    reason ≠ "application windows are not supported" := by
  unfold sessionRequest at hrequest
  split at hrequest
  · rw [← Except.error.inj hrequest]
    decide
  · simp [happ] at hrequest

/-! ### Every run -/

structure Redeems (decode : String → Option TicketClaims) (g : Gateway) : Prop where
  issued : g.issued.Pairwise fun a b => a.jti ≠ b.jti
  ticket : ∀ c s claims, (g.clients c).ticket = some (s, claims) →
    decode s = some claims ∧ claims ∈ g.issued
  window : ∀ c claims now next, g.clients c = .consuming claims now next →
    now < claims.exp + clockSkew
  early : ∀ c claims, (g.clients c).early = some claims → claims.launchTarget.isApplication = false
  owes : ∀ c claims, (g.clients c).owes = some claims → (claims.jti, c) ∈ g.spentBy
  past : ∀ p ∈ g.spentBy, (g.clients p.2).past = true
  sent : ∀ e ∈ g.enqueued, ∀ jti, e.starts decode jti = true →
    (jti, e.client) ∈ g.spentBy ∧ (g.clients e.client).sent = true
  -- A spent ticket is remembered until its window has passed for somebody.
  remembered : ∀ p ∈ g.spentBy, ∃ claims ∈ g.issued, claims.jti = p.1 ∧
    (g.seen p.1 = some (claims.exp + clockSkew) ∨
      ∃ latest, g.swept = some latest ∧ claims.exp + clockSkew ≤ latest)

theorem redeems_start (clock : ℤ) : Redeems decode (start clock) where
  issued := List.Pairwise.nil
  ticket := by
    intro c s claims h
    cases h
  window := by
    intro c claims now next h
    cases h
  early := by
    intro c claims h
    cases h
  owes := by
    intro c claims h
    cases h
  past := by
    intro p hp
    cases hp
  sent := by
    intro e he
    cases he
  remembered := by
    intro p hp
    cases hp

/-- What a move of one task must keep. -/
structure Keeps (decode : String → Option TicketClaims) (g : Gateway) (p q : ClientTask) : Prop where
  ticket : ∀ s claims, q.ticket = some (s, claims) →
    p.ticket = some (s, claims) ∨ (decode s = some claims ∧ claims ∈ g.issued)
  window : ∀ claims now next, q = .consuming claims now next → now < claims.exp + clockSkew
  early : ∀ claims, q.early = some claims → claims.launchTarget.isApplication = false
  owes : ∀ claims, q.owes = some claims → p.owes = some claims
  past : p.past = true → q.past = true
  sent : p.sent = true → q.sent = true

theorem Redeems.of_keeps (h : Redeems decode g) {task : ClientTask}
    (hk : Keeps decode g (g.clients c) task) : Redeems decode (g.setClient c task) where
  __ := h
  ticket := by
    intro d s claims hd
    rcases eq_or_ne d c with rfl | hne
    · rw [setClient_self] at hd
      rcases hk.ticket s claims hd with hold | hnew
      · exact h.ticket d s claims hold
      · exact hnew
    · rw [setClient_of_ne _ hne] at hd
      exact h.ticket d s claims hd
  window := by
    intro d claims now next hd
    rcases eq_or_ne d c with rfl | hne
    · rw [setClient_self] at hd
      exact hk.window claims now next hd
    · rw [setClient_of_ne _ hne] at hd
      exact h.window d claims now next hd
  early := by
    intro d claims hd
    rcases eq_or_ne d c with rfl | hne
    · rw [setClient_self] at hd
      exact hk.early claims hd
    · rw [setClient_of_ne _ hne] at hd
      exact h.early d claims hd
  owes := by
    intro d claims hd
    rcases eq_or_ne d c with rfl | hne
    · rw [setClient_self] at hd
      exact h.owes d claims (hk.owes claims hd)
    · rw [setClient_of_ne _ hne] at hd
      exact h.owes d claims hd
  past := by
    intro p hp
    rcases eq_or_ne p.2 c with heq | hne
    · rw [heq, setClient_self]
      exact hk.past (heq ▸ h.past p hp)
    · rw [setClient_of_ne _ hne]
      exact h.past p hp
  sent := by
    intro e he jti hstarts
    obtain ⟨hspent, hsent⟩ := h.sent e he jti hstarts
    refine ⟨hspent, ?_⟩
    rcases eq_or_ne e.client c with heq | hne
    · rw [heq, setClient_self]
      exact hk.sent (heq ▸ hsent)
    · rw [setClient_of_ne _ hne]
      exact hsent

theorem now_lt_of_valid (h : claims.isValidAt now = true) : now < claims.exp + clockSkew := by
  simp only [TicketClaims.isValidAt, Bool.and_eq_true, decide_eq_true_eq] at h
  exact h.2

theorem keeps_rejected {p : ClientTask} (reason : String) (hpast : p.past = false) :
    Keeps decode g p (.rejected reason) where
  ticket := by
    intro s claims h
    cases h
  window := by
    intro claims now next h
    cases h
  early := by
    intro claims h
    cases h
  owes := by
    intro claims h
    cases h
  past := by
    intro h
    rw [hpast] at h
    cases h
  sent := by
    intro h
    rw [ClientTask.past_of_sent h] at hpast
    cases hpast

open ClientTask in
theorem keeps_of_move {p q : ClientTask} (hmove : ClientMove codec decode g e p q)
    (hearly : ∀ claims, p.early = some claims → claims.launchTarget.isApplication = false) :
    Keeps decode g p q := by
  cases hmove with
  | hello h => constructor <;> simp [ticket, early, owes, past, sent]
  | abandon => exact keeps_rejected _ rfl
  | accept hdecode hissued =>
    constructor
    · intro s claims h
      cases h
      exact .inr ⟨hdecode, hissued⟩
    all_goals simp [early, owes, past, sent]
  | refuse h => exact keeps_rejected _ rfl
  | clockDesktop happ hvalid =>
    constructor
    · intro s claims h
      exact .inl h
    · rintro claims now next ⟨⟩
      exact now_lt_of_valid hvalid
    · intro claims h
      cases h
      exact happ
    all_goals simp [owes, past, sent]
  | clockApplication hvalid =>
    constructor
    · intro s claims h
      exact .inl h
    · rintro claims now next ⟨⟩
      exact now_lt_of_valid hvalid
    all_goals simp [early, owes, past, sent]
  | expiredDesktop h claims => exact keeps_rejected _ rfl
  | expiredApplication claims request tunnel => exact keeps_rejected _ rfl
  | unreachable hlooks =>
    cases hlooks with
    | application happ => exact keeps_rejected _ rfl
    | desktop => constructor <;> simp [ticket, early, owes, past, sent]
  | @unsupported h claims task windows reason hlooks hrequest =>
    cases hlooks with
    | application happ => exact keeps_rejected _ rfl
    | desktop =>
      -- A spent ticket is a desktop's, so nothing is asked of the peers.
      have hreason := reason_of_desktop hrequest (hearly claims rfl)
      constructor <;> simp [ticket, early, owes, past, sent, hreason]
  | @matched h claims task request tunnel hlooks happ hrequest =>
    cases hlooks with
    | application happ' =>
      constructor
      · intro s claims' h'
        cases h'
        refine .inl ?_
        rw [signedTicket_of_ok hrequest]
        rfl
      all_goals simp [early, owes, past, sent]
    | desktop =>
      rw [hearly claims rfl] at happ
      cases happ
  | @found h claims request tunnel hrequest =>
    constructor
    · intro s claims' h'
      cases h'
      refine .inl ?_
      rw [signedTicket_of_ok hrequest]
      rfl
    · simp
    · simp [early]
    · intro claims' h'
      exact h'
    · simp [past]
    · simp [sent]
  | unsent claims request tunnel => constructor <;> simp [ticket, early, owes, past, sent]
  | ack claims tunnel => constructor <;> simp [ticket, early, owes, past, sent]
  | ackFails claims tunnel => constructor <;> simp [ticket, early, owes, past, sent]
  | closed claims tunnel => constructor <;> simp [ticket, early, owes, past, sent]
  | unstopped hwriter => constructor <;> simp [ticket, early, owes, past, sent]
  | report claims => constructor <;> simp [ticket, early, owes, past, sent]

theorem Redeems.claims_eq (h : Redeems decode g) {a b : TicketClaims} (ha : a ∈ g.issued)
    (hb : b ∈ g.issued) (hjti : a.jti = b.jti) : a = b := by
  by_contra hne
  have : Std.Symm (fun a b : TicketClaims => a.jti ≠ b.jti) := ⟨fun _ _ hab => hab.symm⟩
  exact h.issued.forall ha hb hne hjti

theorem Redeems.sweep (h : Redeems decode g) (hissued : claims ∈ g.issued)
    (now : ℤ) : Redeems decode (g.sweep claims now) where
  __ := h
  remembered := by
    intro p hp
    obtain ⟨other, hother, hjti, hkept⟩ := h.remembered p hp
    refine ⟨other, hother, hjti, ?_⟩
    show Function.update (g.pruned now) claims.jti _ p.1 = _ ∨
      ∃ latest, some (g.swept.elim now (max now)) = some latest ∧ _
    have hnow : now ≤ g.swept.elim now (max now) := by
      cases g.swept with
      | none => exact le_rfl
      | some latest => exact le_max_left _ _
    by_cases heq : p.1 = claims.jti
    · refine .inl ?_
      rw [heq, Function.update_self, h.claims_eq hother hissued (hjti.trans heq)]
    · rw [Function.update_of_ne heq]
      rcases hkept with hseen | ⟨latest, hlatest, hle⟩
      · by_cases hlt : now < other.exp + clockSkew
        · refine .inl ?_
          rw [pruned, hseen, Option.filter_some, if_pos (decide_eq_true hlt)]
        · exact .inr ⟨_, rfl, le_trans (not_lt.mp hlt) hnow⟩
      · refine .inr ⟨_, rfl, le_trans hle ?_⟩
        rw [hlatest]
        exact le_max_right _ _

theorem Redeems.issued_of_consuming (h : Redeems decode g)
    (htask : g.clients c = .consuming claims now next) : claims ∈ g.issued := by
  cases next with
  | lookup hello => exact (h.ticket c hello.ticket claims (by rw [htask]; rfl)).2
  | send request tunnel => exact (h.ticket c request.signedTicket claims (by rw [htask]; rfl)).2

theorem Redeems.spend (h : Redeems decode g) (htask : g.clients c = .consuming claims now next)
    (hseen : g.seen claims.jti = some (claims.exp + clockSkew)) :
    Redeems decode
      { (g.setClient c (next.task claims)) with spentBy := g.spentBy ++ [(claims.jti, c)] } := by
  have hticket : (next.task claims).ticket = (g.clients c).ticket := by
    rw [htask]
    cases next <;> rfl
  have howes : (next.task claims).owes = some claims := by
    cases next <;> rfl
  have hearly : (next.task claims).early = (g.clients c).early := by
    rw [htask]
    cases next <;> rfl
  have hpast : (next.task claims).past = true := by
    cases next <;> rfl
  have hissued : claims ∈ g.issued := h.issued_of_consuming htask
  constructor
  · exact h.issued
  · intro d s claims' hd
    rcases eq_or_ne d c with rfl | hne
    · replace hd : ((g.setClient d (next.task claims)).clients d).ticket = some (s, claims') := hd
      rw [setClient_self, hticket] at hd
      exact h.ticket d s claims' hd
    · replace hd : ((g.setClient c (next.task claims)).clients d).ticket = some (s, claims') := hd
      rw [setClient_of_ne _ hne] at hd
      exact h.ticket d s claims' hd
  · intro d claims' now' next' hd
    rcases eq_or_ne d c with rfl | hne
    · replace hd : (g.setClient d (next.task claims)).clients d = _ := hd
      rw [setClient_self] at hd
      cases next <;> cases hd
    · replace hd : (g.setClient c (next.task claims)).clients d = _ := hd
      rw [setClient_of_ne _ hne] at hd
      exact h.window d claims' now' next' hd
  · intro d claims' hd
    rcases eq_or_ne d c with rfl | hne
    · replace hd : ((g.setClient d (next.task claims)).clients d).early = _ := hd
      rw [setClient_self, hearly] at hd
      exact h.early d claims' hd
    · replace hd : ((g.setClient c (next.task claims)).clients d).early = _ := hd
      rw [setClient_of_ne _ hne] at hd
      exact h.early d claims' hd
  · intro d claims' hd
    rcases eq_or_ne d c with rfl | hne
    · replace hd : ((g.setClient d (next.task claims)).clients d).owes = _ := hd
      rw [setClient_self, howes] at hd
      cases hd
      exact List.mem_append_right _ (List.mem_singleton_self _)
    · replace hd : ((g.setClient c (next.task claims)).clients d).owes = _ := hd
      rw [setClient_of_ne _ hne] at hd
      exact List.mem_append_left _ (h.owes d claims' hd)
  · intro p hp
    show ((g.setClient c (next.task claims)).clients p.2).past = true
    rcases eq_or_ne p.2 c with heq | hne
    · rw [heq, setClient_self, hpast]
    · rw [setClient_of_ne _ hne]
      rcases List.mem_append.mp hp with hp | hp
      · exact h.past p hp
      · exact absurd (by rw [List.mem_singleton.mp hp]) hne
  · intro e he jti hstarts
    obtain ⟨hspent, hsent⟩ := h.sent e he jti hstarts
    refine ⟨List.mem_append_left _ hspent, ?_⟩
    show ((g.setClient c (next.task claims)).clients e.client).sent = true
    have hne : e.client ≠ c := by
      intro heq
      rw [heq, htask] at hsent
      cases hsent
    rw [setClient_of_ne _ hne]
    exact hsent
  · intro p hp
    rcases List.mem_append.mp hp with hp | hp
    · exact h.remembered p hp
    · obtain rfl := List.mem_singleton.mp hp
      exact ⟨claims, hissued, rfl, .inl hseen⟩

theorem Redeems.consume (h : Redeems decode g) (htask : g.clients c = .consuming claims now next) :
    Redeems decode (g.consume c claims now next) := by
  have hswept := h.sweep (h.issued_of_consuming htask) now
  unfold Gateway.consume
  split
  · refine hswept.of_keeps (keeps_rejected _ ?_)
    show (g.clients c).past = false
    rw [htask]
    rfl
  · exact hswept.spend htask (Function.update_self ..)

theorem Redeems.send (h : Redeems decode g) (htask : g.clients c = .sending claims request tunnel) :
    Redeems decode
      ((g.enqueue tunnel c (.startSession request)).setClient c (.accepting claims tunnel)) := by
  have hk : Keeps decode g (g.clients c) (.accepting claims tunnel) := by
    rw [htask]
    constructor <;> simp [ClientTask.ticket, ClientTask.early, ClientTask.owes, ClientTask.past,
      ClientTask.sent]
  have hbase := h.of_keeps hk
  have hdecode := (h.ticket c request.signedTicket claims (by rw [htask]; rfl)).1
  have howes := h.owes c claims (by rw [htask]; rfl)
  refine { hbase with sent := fun e he jti hstarts => ?_ }
  rcases List.mem_append.mp he with he | he
  · exact hbase.sent e he jti hstarts
  · obtain rfl := List.mem_singleton.mp he
    have hjti : claims.jti = jti := by
      simpa [Enqueued.starts, hdecode] using hstarts
    refine ⟨hjti ▸ howes, ?_⟩
    show ((g.setClient c (.accepting claims tunnel)).clients c).sent = true
    rw [setClient_self]
    rfl

theorem Redeems.stop (h : Redeems decode g) (htask : g.clients c = .stopping claims tunnel) :
    Redeems decode
      ((g.enqueue tunnel c (.stopSession claims.sid)).setClient c (.reporting claims)) := by
  have hk : Keeps decode g (g.clients c) (.reporting claims) := by
    rw [htask]
    constructor <;> simp [ClientTask.ticket, ClientTask.early, ClientTask.owes, ClientTask.past,
      ClientTask.sent]
  have hbase := h.of_keeps hk
  refine { hbase with sent := fun e he jti hstarts => ?_ }
  rcases List.mem_append.mp he with he | he
  · exact hbase.sent e he jti hstarts
  · obtain rfl := List.mem_singleton.mp he
    cases hstarts

theorem Redeems.same (h : Redeems decode g) (hs : SameClients g g') : Redeems decode g' where
  issued := hs.issued ▸ h.issued
  ticket := by
    rw [hs.clients, hs.issued]
    exact h.ticket
  window := hs.clients ▸ h.window
  early := hs.clients ▸ h.early
  owes := by
    rw [hs.clients, hs.spentBy]
    exact h.owes
  past := by
    rw [hs.clients, hs.spentBy]
    exact h.past
  sent := by
    rw [hs.clients, hs.spentBy, hs.enqueued]
    exact h.sent
  remembered := by
    rw [hs.issued, hs.spentBy, hs.seen, hs.swept]
    exact h.remembered

theorem redeems_turn (h : Redeems decode g)
    (hs : ClientTurn codec decode g c e g') : Redeems decode g' := by
  cases hs with
  | move hmove => exact h.of_keeps (keeps_of_move hmove (h.early c))
  | consume htask => exact h.consume htask
  | send htask => exact h.send htask
  | stop htask hwriter => exact h.stop htask

/-- **Step lemma.** -/
theorem redeems_step (h : Redeems decode g) {a : GatewayEvent} (hs : Steps codec decode g a g') :
    Redeems decode g' := by
  cases hs with
  | tick seconds => exact { h with }
  | @issue claims hjti hfresh =>
    refine ⟨?_, ?_, h.window, h.early, h.owes, h.past, h.sent, ?_⟩
    · refine List.pairwise_append.mpr ⟨h.issued, List.pairwise_singleton _ _, ?_⟩
      intro a ha b hb
      obtain rfl := List.mem_singleton.mp hb
      exact hfresh a ha
    · intro c s claims' hc
      obtain ⟨hdecode, hmem⟩ := h.ticket c s claims' hc
      exact ⟨hdecode, List.mem_append_left _ hmem⟩
    · intro p hp
      obtain ⟨claims', hmem, hrest⟩ := h.remembered p hp
      exact ⟨claims', List.mem_append_left _ hmem, hrest⟩
  | beat machine => exact { h with }
  | manager hturn => exact h.same hturn.sameClients
  | agent hturn => exact h.same hturn.sameClients
  | client hturn => exact redeems_turn h hturn

theorem redeems_reach {clock : ℤ} (hr : Runs.Reach (step codec decode) (start clock) g) :
    Redeems decode g :=
  hr.invariant (redeems_start clock) fun _ _ _ h hs => redeems_step h (step_cases hs)

/-! ### Runs without an outdated reading -/

/-- No `consume` takes the lock after somebody pruned the table with a reading
past the window of its ticket. -/
def timely (g : Gateway) : GatewayEvent → Bool
  | .client c .consume =>
    match g.clients c with
    | .consuming claims _ _ => g.swept.all (· < claims.exp + clockSkew)
    | _ => true
  | _ => true

def stepTimely (codec : LaunchCodec) (decode : String → Option TicketClaims) (g : Gateway)
    (a : GatewayEvent) : Option Gateway :=
  if g.timely a then g.step codec decode a else none

/-- Every ticket was spent once at most, and started one session at most. -/
structure Single (decode : String → Option TicketClaims) (g : Gateway) : Prop where
  spent : g.spentBy.Pairwise fun p q => p.1 ≠ q.1
  starts : ∀ jti, g.enqueued.countP (·.starts decode jti) ≤ 1

theorem Single.spender_eq (h : Single decode g) {jti c d : ℕ} (hc : (jti, c) ∈ g.spentBy)
    (hd : (jti, d) ∈ g.spentBy) : c = d := by
  by_contra hne
  have : Std.Symm (fun p q : ℕ × ℕ => p.1 ≠ q.1) := ⟨fun _ _ hab => hab.symm⟩
  exact h.spent.forall hc hd (fun heq => hne (Prod.mk.inj heq).2) rfl

theorem Single.consume (h : Single decode g) (hr : Redeems decode g)
    (htask : g.clients c = .consuming claims now next)
    (htimely : g.timely (.client c .consume) = true) :
    Single decode (g.consume c claims now next) := by
  unfold Gateway.consume
  split
  · exact ⟨h.spent, h.starts⟩
  · next hnew =>
    refine ⟨List.pairwise_append.mpr ⟨h.spent, List.pairwise_singleton _ _, ?_⟩, h.starts⟩
    intro p hp q hq heq
    obtain rfl := List.mem_singleton.mp hq
    obtain ⟨other, hother, hjti, hkept⟩ := hr.remembered p hp
    obtain rfl := hr.claims_eq hother (hr.issued_of_consuming htask) (hjti.trans heq)
    rcases hkept with hseen | ⟨latest, hlatest, hle⟩
    · -- Its own pruning keeps the entry, since its reading is within the window.
      have hwindow := hr.window c other now next htask
      refine hnew ?_
      rw [pruned, hjti, hseen, Option.filter_some, if_pos (decide_eq_true hwindow)]
      rfl
    · have hlt : latest < other.exp + clockSkew := by
        simpa [timely, htask, hlatest] using htimely
      omega

theorem Single.send (h : Single decode g) (hr : Redeems decode g)
    (htask : g.clients c = .sending claims request tunnel) :
    Single decode
      ((g.enqueue tunnel c (.startSession request)).setClient c (.accepting claims tunnel)) := by
  refine ⟨h.spent, ?_⟩
  intro jti
  show (g.enqueued ++ [_]).countP _ ≤ 1
  rw [List.countP_append]
  have hdecode := (hr.ticket c request.signedTicket claims (by rw [htask]; rfl)).1
  have howes := hr.owes c claims (by rw [htask]; rfl)
  by_cases hjti : claims.jti = jti
  · -- Whoever started a session for this ticket is not this task, which has not sent yet.
    have hnone : g.enqueued.countP (·.starts decode jti) = 0 := by
      rw [List.countP_eq_zero]
      intro e he hstarts
      obtain ⟨hspent, hsent⟩ := hr.sent e he jti hstarts
      rw [h.spender_eq hspent (hjti ▸ howes), htask] at hsent
      cases hsent
    rw [hnone, Nat.zero_add]
    exact List.countP_le_length
  · have hlast : (Enqueued.mk tunnel.connection c (.startSession request)).starts decode jti =
        false := by
      simp [Enqueued.starts, hdecode, hjti]
    rw [List.countP_singleton, if_neg (by simp [hlast]), Nat.add_zero]
    exact h.starts jti

theorem single_step (h : Single decode g) (hr : Redeems decode g) {a : GatewayEvent}
    (htimely : g.timely a = true) (hs : Steps codec decode g a g') : Single decode g' := by
  cases hs with
  | tick seconds => exact ⟨h.spent, h.starts⟩
  | issue hjti hfresh => exact ⟨h.spent, h.starts⟩
  | beat machine => exact ⟨h.spent, h.starts⟩
  | manager hturn | agent hturn =>
    have hsame := hturn.sameClients
    exact ⟨hsame.spentBy ▸ h.spent, hsame.enqueued ▸ h.starts⟩
  | client hturn =>
    cases hturn with
    | move hmove => exact ⟨h.spent, h.starts⟩
    | consume htask => exact h.consume hr htask htimely
    | send htask => exact h.send hr htask
    | stop htask hwriter =>
      refine ⟨h.spent, ?_⟩
      intro jti
      show (g.enqueued ++ [_]).countP _ ≤ 1
      rw [List.countP_append, List.countP_singleton, if_neg (by simp [Enqueued.starts]),
        Nat.add_zero]
      exact h.starts jti

theorem single_reach {clock : ℤ} (hr : Runs.Reach (stepTimely codec decode) (start clock) g) :
    Redeems decode g ∧ Single decode g := by
  refine hr.invariant (P := fun g => Redeems decode g ∧ Single decode g)
    ⟨redeems_start clock, ⟨List.Pairwise.nil, ?_⟩⟩ ?_
  · intro jti
    exact Nat.zero_le 1
  · intro g g' a ⟨h, hsingle⟩ hs
    unfold stepTimely at hs
    split at hs
    · next htimely =>
      have hsteps := step_cases hs
      exact ⟨redeems_step h hsteps, single_step hsingle h htimely hsteps⟩
    · cases hs

/-- A step that refuses a client for what the peers support leaves the replay
table alone. -/
theorem seen_of_unsupported (hs : ClientTurn codec decode g c e g')
    (htask : g'.clients c = .rejected "application windows are not supported") :
    g'.seen = g.seen := by
  cases hs with
  | move hmove => rfl
  | @consume claims now next _ =>
    unfold Gateway.consume at htask
    split at htask
    · rw [setClient_self] at htask
      simp at htask
    · replace htask : ((g.sweep claims now).setClient c (next.task claims)).clients c = _ := htask
      rw [setClient_self] at htask
      cases next <;> cases htask
  | send _ => rfl
  | stop _ _ => rfl

/-- In every run a client that is refused for what the peers support has not spent
its ticket; and in every run whose steps are timely, a ticket id starts one
session at most, on all tunnels together. -/
theorem ticket_opens_one_session (codec : LaunchCodec) (decode : String → Option TicketClaims)
    (clock : ℤ) (g : Gateway) :
    (Runs.Reach (step codec decode) (start clock) g →
      (∀ c, g.clients c = .rejected "application windows are not supported" →
        ∀ jti, (jti, c) ∉ g.spentBy) ∧
      ∀ c e g', g.step codec decode (.client c e) = some g' →
        g'.clients c = .rejected "application windows are not supported" → g'.seen = g.seen) ∧
    (Runs.Reach (stepTimely codec decode) (start clock) g →
      ∀ jti, g.enqueued.countP (·.starts decode jti) ≤ 1) := by
  constructor
  · intro hr
    constructor
    · intro c hc jti hspent
      have hpast := (redeems_reach hr).past (jti, c) hspent
      rw [hc] at hpast
      simp [ClientTask.past] at hpast
    · intro c e g' hs htask
      exact seen_of_unsupported (client_cases hs) htask
  · intro hr
    exact (single_reach hr).2.starts

/-! ### A run with two clients of one ticket -/

/-- A desktop ticket for machine 7, issued at this time. -/
def sampleClaims (session : ℕ) (issuedAt : ℤ) : TicketClaims where
  jti := session
  iat := issuedAt
  exp := issuedAt + defaultTtl
  sid := session
  tid := 1
  uid := 2
  mid := 7
  rid := 8
  role := .controller
  policy := .full
  launchTarget := .desktop

def sampleDecode (ticket : String) : Option TicketClaims :=
  if ticket = "first" then some (sampleClaims 1 1000)
  else if ticket = "second" then some (sampleClaims 2 1050)
  else none

def sampleAttach : List GatewayEvent :=
  [.agent 10 (.hello ⟨7, 7, false⟩), .manager .success, .agent 10 .insert]

/-- A client presents a ticket and reads the clock. -/
def samplePresent (c : ℕ) (ticket : String) : List GatewayEvent :=
  [.client c (.hello ⟨ticket, false⟩), .client c .accept, .client c .readClock]

/-- A client's task spends its ticket and queues its request. -/
def sampleStart (c : ℕ) : List GatewayEvent :=
  [.client c .consume, .client c .lookup, .client c .send]

/-- Two clients present the same ticket in time: one session is started. -/
theorem ticket_opens_one_session_replayed :
    ∃ g, Runs.Reach (stepTimely sampleLaunchCodec sampleDecode) (start 1000) g ∧
      g.clients 1 = .accepting (sampleClaims 1 1000) ⟨10, 7, false⟩ ∧
      g.clients 2 = .rejected "the ticket was not accepted" ∧
      g.enqueued.countP (·.starts sampleDecode 1) ≤ 1 := by
  have hrun : (Runs.tryRun (stepTimely sampleLaunchCodec sampleDecode) (start 1000)
      (sampleAttach ++ ([.issue (sampleClaims 1 1000)] : List GatewayEvent) ++
        samplePresent 1 "first" ++ samplePresent 2 "first" ++ sampleStart 1 ++
        [GatewayEvent.client 2 .consume])).map
        (fun g => (g.clients 1, g.clients 2)) =
      some (.accepting (sampleClaims 1 1000) ⟨10, 7, false⟩,
        .rejected "the ticket was not accepted") := by
    decide +kernel
  obtain ⟨g, htry, hout⟩ := Option.map_eq_some_iff.mp hrun
  obtain ⟨hfirst, hsecond⟩ := Prod.mk.inj hout
  have hr := Runs.reach_of_tryRun .init htry
  exact ⟨g, hr, hfirst, hsecond,
    (ticket_opens_one_session sampleLaunchCodec sampleDecode 1000 g).2 hr 1⟩

/-- Client 2 reads the clock one second before the ticket's window ends and takes
the lock after client 3, whose reading ended it, has pruned the table: the ticket
opens a second session. -/
theorem ticket_spent_twice :
    ∃ g, Runs.Reach (step sampleLaunchCodec sampleDecode) (start 1000) g ∧
      ¬ ∀ jti, g.enqueued.countP (·.starts sampleDecode jti) ≤ 1 := by
  have hrun : (Runs.tryRun (step sampleLaunchCodec sampleDecode) (start 1000)
      (sampleAttach ++ ([.issue (sampleClaims 1 1000), .issue (sampleClaims 2 1050),
          .tick 89] : List GatewayEvent) ++ samplePresent 1 "first" ++ samplePresent 2 "first" ++
        sampleStart 1 ++ [GatewayEvent.tick 1] ++ samplePresent 3 "second" ++ sampleStart 3 ++
        sampleStart 2)).map
        (fun g => g.enqueued.countP (·.starts sampleDecode 1)) = some 2 := by
    decide +kernel
  obtain ⟨g, htry, hcount⟩ := Option.map_eq_some_iff.mp hrun
  refine ⟨g, Runs.reach_of_tryRun .init htry, ?_⟩
  intro hall
  have hone := hall 1
  rw [hcount] at hone
  omega

end Gateway

end NebulaDesk
