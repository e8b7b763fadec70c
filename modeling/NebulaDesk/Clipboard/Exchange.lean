/-
Two clipboard syncs that talk to each other.

The clipboard channel opens a stream for each message, so messages on their way
to one end may be delivered in any order; `deliver e k` hands end `e` the `k`-th
of them.  Local programs may copy at any time, also between two calls of one
operation (`Weather`), and any call may fail.

What is noted of a run is what was announced, what was answered to which request,
and what was pasted.  `truthful_paste`: until the ids start again from zero they
only grow, only a request for the latest offer of an end is answered, and what is
pasted is what the other end announced.  `offer_ids_wrap` is a run beyond.
-/
import NebulaDesk.Clipboard.Consent

namespace NebulaDesk

/-- Something the peer sent that the clipboard sync should act on. -/
inductive ClipboardInbound
  | offer (offer : ClipboardOffer)
  | request (request : ClipboardRequest)
  | data (header : ClipboardDataHeader) (bytes : List UInt8)
deriving DecidableEq

/-- What an action puts on the clipboard wire; file gestures go elsewhere. -/
def ClipboardAction.message : ClipboardAction → Option ClipboardInbound
  | .offer o => some (.offer o)
  | .request r => some (.request r)
  | .data header bytes => some (.data header bytes)
  | .files _ => none

/-- Two ends, and the messages on their way to each. -/
structure Exchange where
  ends : Bool → ClipboardSync Desktop
  wires : Bool → List ClipboardInbound

namespace Exchange

open ClipboardSync

/-- What one end starts with. -/
structure Setup where
  clipboard : Desktop
  enabled : Bool
  filesEnabled : Bool
  weather : Weather

/-- Both ends have primed; nothing came from the other yet. -/
def start (host : Host) (setup : Bool → Setup) : Exchange where
  ends := fun e =>
    prime host (Desktop.access host)
      ((withFileTransfer { (setup e).clipboard with foreign := false } (setup e).enabled
        (setup e).filesEnabled).under (setup e).weather)
  wires := fun _ => []

inductive Act
  | poll (e : Bool) (w : Weather)
  | copy (e : Bool) (x : LocalCopy)
  | deliver (e : Bool) (k : ℕ) (w : Weather)

def setEnd (e : Bool) (s : ClipboardSync Desktop) (x : Exchange) : Exchange :=
  { x with ends := fun b => if b = e then s else x.ends b }

/-- End `e` puts the message of an action on the wire. -/
def emit (e : Bool) (a : Option ClipboardAction) (x : Exchange) : Exchange :=
  { x with
    wires := fun b => if b = e then x.wires b
      else x.wires b ++ (a.bind ClipboardAction.message).toList }

/-- Message `k` leaves the wire. -/
def pick (e : Bool) (k : ℕ) (x : Exchange) : Exchange :=
  { x with wires := fun b => if b = e then (x.wires b).eraseIdx k else x.wires b }

/-- A sync handles one message from the peer. -/
def receive (host : Host) (w : Weather) (s : ClipboardSync Desktop) :
    ClipboardInbound → Option ClipboardAction × ClipboardSync Desktop
  | .offer o => (onOffer o s, s)
  | .request r => (onRequest r s, s)
  | .data header bytes =>
    (none, (onData host (Desktop.access host) header bytes (s.under w)).2)

/-- What end `e` of the exchange returns and the sync it is left with. -/
def turn (host : Host) (x : Exchange) :
    Act → Option (Option ClipboardAction × ClipboardSync Desktop)
  | .poll e w => some (poll host (Desktop.access host) ((x.ends e).under w))
  | .copy e c => some (none, { x.ends e with clipboard := (x.ends e).clipboard.copy c })
  | .deliver e k w => (x.wires e)[k]?.map (receive host w (x.ends e))

/-- The end an act takes place at. -/
def Act.side : Act → Bool
  | .poll e _ => e
  | .copy e _ => e
  | .deliver e _ _ => e

/-- The wires once the act has taken its message. -/
def taking (x : Exchange) : Act → Exchange
  | .deliver e k _ => x.pick e k
  | _ => x

def step (host : Host) (x : Exchange) (act : Act) : Option Exchange :=
  (x.turn host act).map fun r => ((x.taking act).setEnd act.side r.2).emit act.side r.1

/-! ### What is noted of a run -/

inductive Note
  /-- End `e` announced what its clipboard held after its `stamp`-th change. -/
  | offered (e : Bool) (offer : ClipboardOffer) (contents : Contents) (stamp : ℕ) (foreign : Bool)
  | answered (e : Bool) (request : ClipboardRequest) (header : ClipboardDataHeader)
    (bytes : List UInt8)
  | pasted (e : Bool) (header : ClipboardDataHeader) (bytes : List UInt8)
deriving DecidableEq

def noteOffer (e : Bool) (s : ClipboardSync Desktop) : Option ClipboardAction → Option Note
  | some (.offer o) =>
    s.outgoing.map fun held =>
      .offered e o held.2 s.clipboard.counter s.clipboard.foreign
  | _ => none

def noteMessage (host : Host) (e : Bool) (w : Weather) (s : ClipboardSync Desktop) :
    ClipboardInbound → Option Note
  | .offer _ => none
  | .request r =>
    match onRequest r s with
    | some (.data header bytes) => some (.answered e r header bytes)
    | _ => none
  | .data header bytes =>
    match (onData host (Desktop.access host) header bytes (s.under w)).1 with
    | .ok () => some (.pasted e header bytes)
    | .error _ => none

def note (host : Host) (x : Exchange) (act : Act) (x' : Exchange) : Option Note :=
  match act with
  | .poll e _ => noteOffer e (x'.ends e) ((x.turn host act).bind Prod.fst)
  | .copy _ _ => none
  | .deliver e k w => (x.wires e)[k]?.bind (noteMessage host e w (x.ends e))

variable {host : Host} {x x' y : Exchange} {e b : Bool} {act : Act} {a : Option ClipboardAction}

/-- **What a step does**: one end takes a turn, and its message goes to the other. -/
theorem step_cases (h : x.step host act = some x') :
    ∃ a s, x.turn host act = some (a, s) ∧
      x'.ends act.side = s ∧ x'.ends (!act.side) = x.ends (!act.side) ∧
      x'.wires act.side = (x.taking act).wires act.side ∧
      x'.wires (!act.side) =
        (x.taking act).wires (!act.side) ++ (a.bind ClipboardAction.message).toList := by
  obtain ⟨⟨a, s⟩, hturn, rfl⟩ := Option.map_eq_some_iff.mp h
  refine ⟨a, s, hturn, if_pos rfl, ?_, if_pos rfl, ?_⟩
  · have hne : ¬ (!act.side) = act.side := by cases act.side <;> decide
    cases act <;> exact if_neg hne
  · have hne : ¬ (!act.side) = act.side := by cases act.side <;> decide
    exact if_neg hne

/-! ### The invariant of a truthful exchange -/

/-- End `e` announced the contents `c` under offer `id`. -/
def Announced (history : List Note) (e : Bool) (id : ℕ) (c : Contents) : Prop :=
  ∃ offer stamp foreign, .offered e offer c stamp foreign ∈ history ∧ offer.offerId = id ∧
    offer.formats = [c.format]

/-- Whether end `e` announces something. -/
def Note.announces (e : Bool) : Note → Bool
  | .offered b _ _ _ _ => b == e
  | _ => false

/-- How many offers end `e` has made. -/
def made (history : List Note) (e : Bool) : ℕ := history.countP (Note.announces e)

/-- What a note may say, given what was noted before it.  What rests on the ids of an end to differ
holds until it has made `2 ^ 64` offers. -/
def Faithful (before : List Note) : Note → Prop
  | .offered e offer c _ _ =>
    offer.formats = [c.format] ∧ offer.sizeHint = c.bytes.length ∧
      offer.offerId = (made before e + 1) % 2 ^ 64 ∧
      (made before e + 1 < 2 ^ 64 → ∀ id c', Announced before e id c' → id < offer.offerId)
  | .answered e request header bytes =>
    header = ⟨request.offerId, request.format⟩ ∧
      Announced before e request.offerId ⟨request.format, bytes⟩ ∧
      (made before e < 2 ^ 64 → ∀ id c, Announced before e id c →
        id < request.offerId ∨ id = request.offerId ∧ c = ⟨request.format, bytes⟩)
  | .pasted e header bytes =>
    Announced before (!e) header.offerId ⟨header.format, bytes⟩ ∧
      (made before (!e) < 2 ^ 64 → ∀ c, Announced before (!e) header.offerId c →
        c = ⟨header.format, bytes⟩)

structure Truthful (x : Exchange) (history : List Note) : Prop where
  next : ∀ e, (x.ends e).nextOffer = (made history e + 1) % 2 ^ 64
  ids : ∀ e, made history e < 2 ^ 64 → ∀ id c, Announced history e id c → id ≤ made history e
  sole : ∀ e, made history e < 2 ^ 64 → ∀ id c c', Announced history e id c →
    Announced history e id c' → c = c'
  held : ∀ e id c, (x.ends e).outgoing = some (id, c) → Announced history e id c ∧
    (made history e < 2 ^ 64 → id = made history e)
  wire : ∀ e header bytes, .data header bytes ∈ x.wires e →
    Announced history (!e) header.offerId ⟨header.format, bytes⟩
  faithful : Runs.Each Faithful history

theorem Announced.mono {history more : List Note} {id : ℕ} {c : Contents}
    (h : Announced history e id c) : Announced (history ++ more) e id c := by
  obtain ⟨offer, stamp, foreign, hmem, hid, hformats⟩ := h
  exact ⟨offer, stamp, foreign, List.mem_append_left _ hmem, hid, hformats⟩

theorem quiet_history (history : List Note) {n : Option Note}
    (hno : ∀ b o c stamp foreign, n ≠ some (.offered b o c stamp foreign)) :
    (∀ e, made (history ++ n.toList) e = made history e) ∧
      ∀ e id c, Announced (history ++ n.toList) e id c → Announced history e id c := by
  cases n with
  | none => simp
  | some n =>
    constructor
    · intro e
      cases n with
      | offered b o c stamp foreign => exact absurd rfl (hno b o c stamp foreign)
      | answered | pasted => simp [made, Note.announces]
    · rintro e id c ⟨o, stamp, foreign, hm, hid, hformats⟩
      rcases List.mem_append.mp hm with hm | hm
      · exact ⟨o, stamp, foreign, hm, hid, hformats⟩
      · exact absurd (Option.mem_toList.mp hm) (hno e o c stamp foreign)

theorem made_offered {history : List Note} {o : ClipboardOffer} {c : Contents} {stamp : ℕ}
    {foreign : Bool} : made (history ++ [.offered b o c stamp foreign]) e =
      made history e + if b = e then 1 else 0 := by
  rw [made, made, List.countP_append]
  rcases eq_or_ne b e with rfl | hne
  · simp [Note.announces]
  · simp [Note.announces, hne]

theorem announced_offered {history : List Note} {o : ClipboardOffer} {c c' : Contents} {id stamp : ℕ}
    {foreign : Bool} (h : Announced (history ++ [.offered b o c stamp foreign]) e id c') :
    Announced history e id c' ∨ b = e ∧ o.offerId = id ∧ c' = c := by
  obtain ⟨o', stamp', foreign', hm, hid, hformats⟩ := h
  rcases List.mem_append.mp hm with hm | hm
  · exact .inl ⟨o', stamp', foreign', hm, hid, hformats⟩
  · obtain ⟨rfl, rfl, rfl, -⟩ := Note.offered.inj (List.mem_singleton.mp hm)
    exact .inr ⟨rfl, hid, rfl⟩

/-- How a turn of end `e` changes what it holds out to the other end. -/
inductive Holding (e : Bool) (s s' : ClipboardSync Desktop) :
    Option ClipboardAction → Option Note → Prop
  | offered (c : Contents) (stamp : ℕ) (foreign : Bool) :
      s'.nextOffer = (s.nextOffer + 1) % 2 ^ 64 → s'.outgoing = some (s.nextOffer, c) →
      Holding e s s' (some (.offer ⟨s.nextOffer, [c.format], c.bytes.length⟩))
        (some (.offered e ⟨s.nextOffer, [c.format], c.bytes.length⟩ c stamp foreign))
  | quiet {a : Option ClipboardAction} {n : Option Note} :
      s'.nextOffer = s.nextOffer → (s'.outgoing = none ∨ s'.outgoing = s.outgoing) →
      (∀ header bytes, a = some (.data header bytes) →
        s.outgoing = some (header.offerId, ⟨header.format, bytes⟩)) →
      (∀ b o c stamp foreign, n ≠ some (.offered b o c stamp foreign)) →
      Holding e s s' a n

theorem noteOffer_quiet {s s' t : ClipboardSync Desktop}
    (h : Quiet s a s') : noteOffer e t a = none := by
  rcases h.action with rfl | ⟨files, rfl⟩
  all_goals rfl

theorem noteOffer_offers {s s' : ClipboardSync Desktop}
    {c : Contents} (h : Offers host s c a s') :
    noteOffer e s' a = some (.offered e ⟨s.nextOffer, [c.format], c.bytes.length⟩ c
      s'.clipboard.counter s'.clipboard.foreign) := by
  rw [h.action, noteOffer, h.outgoing]
  rfl

theorem noteMessage_ne_offered {s : ClipboardSync Desktop} {w : Weather} {m : ClipboardInbound}
    {o : ClipboardOffer} {c : Contents} {stamp : ℕ} {foreign : Bool} :
    noteMessage host e w s m ≠ some (.offered b o c stamp foreign) := by
  intro hn
  cases m with
  | offer o => cases hn
  | request r | data header bytes =>
    simp only [noteMessage] at hn
    split at hn
    all_goals cases hn

theorem poll_holding {s s' : ClipboardSync Desktop} {w : Weather}
    (h : Polled host (s.under w) a s') : Holding e s s' a (noteOffer e s' a) := by
  rcases h.outcome with hq | ⟨c, hc⟩
  · rw [noteOffer_quiet hq]
    refine .quiet hq.nextOffer hq.outgoing ?_ ?_
    · rintro header bytes rfl
      rcases hq.action with hn | ⟨files, hn⟩
      all_goals cases hn
    · intro b o c stamp foreign hn
      cases hn
  · have hholds := Holding.offered (e := e) (s := s) c s'.clipboard.counter s'.clipboard.foreign
      hc.nextOffer hc.outgoing
    rw [noteOffer_offers hc, hc.action]
    exact hholds

theorem message_holding (host : Host) (s : ClipboardSync Desktop) (w : Weather) (m : ClipboardInbound) :
    Holding e s (receive host w s m).2 (receive host w s m).1 (noteMessage host e w s m) := by
  cases m with
  | offer o =>
    refine .quiet rfl (.inr rfl) ?_ fun _ _ _ _ _ => noteMessage_ne_offered
    intro header bytes ha
    obtain ⟨-, format, hr⟩ := onOffer_eq_some ha
    cases hr
  | request r =>
    refine .quiet rfl (.inr rfl) ?_ fun _ _ _ _ _ => noteMessage_ne_offered
    intro header bytes ha
    obtain ⟨-, c, hout, -, hd⟩ := onRequest_eq_some ha
    cases hd
    exact hout
  | data header bytes =>
    have ht := taken host header bytes (s.under w)
    have hkept : (receive host w s (.data header bytes)).2.nextOffer = s.nextOffer ∧
        ((receive host w s (.data header bytes)).2.outgoing = none ∨
          (receive host w s (.data header bytes)).2.outgoing = s.outgoing) := by
      simp only [receive]
      generalize (onData host (Desktop.access host) header bytes (s.under w)).1 = r at ht
      generalize (onData host (Desktop.access host) header bytes (s.under w)).2 = t at ht ⊢
      cases ht with
      | refused => exact ⟨rfl, .inr rfl⟩
      | failed => exact ⟨rfl, .inr rfl⟩
      | written => exact ⟨rfl, .inl rfl⟩
    refine .quiet hkept.1 hkept.2 ?_ fun _ _ _ _ _ => noteMessage_ne_offered
    intro header' bytes' ha
    cases ha

theorem turn_holding {s : ClipboardSync Desktop}
    (hturn : x.turn host act = some (a, s)) (hend : x'.ends act.side = s) :
    Holding act.side (x.ends act.side) s a (note host x act x') := by
  cases act with
  | poll e w =>
    have hp := polled host ((x.ends e).under w)
    have hnote : note host x (.poll e w) x' = noteOffer e s a := by
      rw [note, hturn]
      exact congrArg (fun t => noteOffer e t a) hend
    rw [show poll host (Desktop.access host) ((x.ends e).under w) = (a, s) from
      Option.some.inj hturn] at hp
    rw [hnote]
    exact poll_holding hp
  | copy e c =>
    cases hturn
    refine .quiet rfl (.inr rfl) ?_ ?_
    · intro header bytes ha
      cases ha
    · intro b o c stamp foreign hn
      cases hn
  | deliver e k w =>
    obtain ⟨m, hm, hr⟩ := Option.map_eq_some_iff.mp hturn
    have hnote : note host x (.deliver e k w) x' = noteMessage host e w (x.ends e) m := by
      rw [note, hm]
      rfl
    have hh := message_holding host (e := e) (x.ends e) w m
    rw [hr] at hh
    rw [hnote]
    exact hh

variable {header : ClipboardDataHeader} {bytes : List UInt8}

theorem note_answered {request : ClipboardRequest}
    (h : note host x act x' = some (.answered e request header bytes)) :
    header = ⟨request.offerId, request.format⟩ ∧
      (x.ends e).outgoing = some (request.offerId, ⟨request.format, bytes⟩) := by
  cases act with
  | poll e' w =>
    simp only [note, noteOffer] at h
    split at h
    · obtain ⟨held, -, hn⟩ := Option.map_eq_some_iff.mp h
      cases hn
    · cases h
  | copy => cases h
  | deliver e' k w =>
    obtain ⟨m, hm, hn⟩ := Option.bind_eq_some_iff.mp h
    cases m with
    | offer o => cases hn
    | request r =>
      simp only [noteMessage] at hn
      split at hn
      · rename_i header' bytes' ha
        obtain ⟨-, c, hout, hformat, hd⟩ := onRequest_eq_some ha
        cases hd
        cases hn
        rw [hformat, ← hformat]
        exact ⟨rfl, hout⟩
      · cases hn
    | data header' bytes' =>
      simp only [noteMessage] at hn
      split at hn
      all_goals cases hn

theorem note_pasted (h : note host x act x' = some (.pasted e header bytes)) :
    .data header bytes ∈ x.wires e := by
  cases act with
  | poll e' w =>
    simp only [note, noteOffer] at h
    split at h
    · obtain ⟨held, -, hn⟩ := Option.map_eq_some_iff.mp h
      cases hn
    · cases h
  | copy => cases h
  | deliver e' k w =>
    obtain ⟨m, hm, hn⟩ := Option.bind_eq_some_iff.mp h
    cases m with
    | offer o => cases hn
    | request r =>
      simp only [noteMessage] at hn
      split at hn
      all_goals cases hn
    | data header' bytes' =>
      simp only [noteMessage] at hn
      split at hn
      · cases hn
        exact List.mem_of_getElem? hm
      · cases hn

theorem mem_wires {m : ClipboardInbound} (hsame : x'.wires act.side = (x.taking act).wires act.side)
    (hother : x'.wires (!act.side) = (x.taking act).wires (!act.side) ++ (a.bind ClipboardAction.message).toList)
    (h : m ∈ x'.wires b) :
    m ∈ x.wires b ∨ b = !act.side ∧ a.bind ClipboardAction.message = some m := by
  have hsub : ∀ b m, m ∈ (x.taking act).wires b → m ∈ x.wires b := by
    intro b m hm
    cases act with
    | poll e w => exact hm
    | copy e c => exact hm
    | deliver e k w =>
      simp only [taking, pick] at hm
      split at hm
      · exact List.mem_of_mem_eraseIdx hm
      · exact hm
  rcases Bool.eq_or_eq_not b act.side with rfl | rfl
  · rw [hsame] at h
    exact .inl (hsub _ _ h)
  · rw [hother, List.mem_append, Option.mem_toList] at h
    rcases h with h | h
    · exact .inl (hsub _ _ h)
    · exact .inr ⟨rfl, h⟩

theorem message_eq_data (h : a.bind ClipboardAction.message = some (.data header bytes)) :
    a = some (.data header bytes) := by
  obtain ⟨action, rfl, hm⟩ := Option.bind_eq_some_iff.mp h
  cases action with
  | data header' bytes' =>
    cases hm
    rfl
  | offer o => cases hm
  | request r => cases hm
  | files paths => cases hm

theorem Truthful.start (setup : Bool → Setup) : Truthful (start host setup) [] := by
  have hp := fun e => primed host ((withFileTransfer
    { (setup e).clipboard with foreign := false } (setup e).enabled
    (setup e).filesEnabled).under (setup e).weather)
  have hnone : ∀ e id c, ¬ Announced [] e id c := by
    rintro e id c ⟨o, stamp, foreign, hm, -⟩
    cases hm
  refine ⟨fun e => (hp e).nextOffer, ?_, ?_, ?_, ?_, Runs.each_nil _⟩
  · intro e _ id c h
    exact absurd h (hnone e id c)
  · intro e _ id c c' h
    exact absurd h (hnone e id c)
  · intro e id c h
    cases (hp e).outgoing.symm.trans h
  · intro e header bytes h
    cases h

theorem Truthful.quiet {history : List Note} (h : Truthful x history) {n : Note}
    (hn : note host x act x' = some n) (hno : ∀ e o c stamp foreign, n ≠ .offered e o c stamp foreign) :
    Faithful history n := by
  cases n with
  | offered e o c stamp foreign => exact absurd rfl (hno e o c stamp foreign)
  | answered e request header bytes =>
    obtain ⟨hheader, hheld⟩ := note_answered hn
    obtain ⟨hann, hlast⟩ := h.held e _ _ hheld
    refine ⟨hheader, hann, fun hfew id c hc => ?_⟩
    -- the ids go up to the one that is held
    have hle := h.ids e hfew id c hc
    rw [← hlast hfew] at hle
    rcases hle.lt_or_eq with hlt | rfl
    · exact .inl hlt
    · exact .inr ⟨rfl, h.sole e hfew _ _ _ hc hann⟩
  | pasted e header bytes =>
    have hann := h.wire e header bytes (note_pasted hn)
    exact ⟨hann, fun hfew c hc => h.sole _ hfew _ _ _ hc hann⟩

theorem Truthful.step {history : List Note} (h : Truthful x history)
    (hs : x.step host act = some x') : Truthful x' (history ++ (note host x act x').toList) := by
  obtain ⟨a, s, hturn, hend, hothers, hsame, hother⟩ := step_cases hs
  have hholding := turn_holding hturn hend
  have hfaithful : ∀ n, note host x act x' = some n →
      (∀ e o c stamp foreign, n ≠ .offered e o c stamp foreign) → Faithful history n :=
    fun n hn hno => h.quiet hn hno
  have hwire : (∀ header bytes, a = some (.data header bytes) →
      (x.ends act.side).outgoing = some (header.offerId, ⟨header.format, bytes⟩)) →
      ∀ e header bytes, .data header bytes ∈ x'.wires e →
        Announced history (!e) header.offerId ⟨header.format, bytes⟩ := by
    intro hdata e header bytes hm
    rcases mem_wires hsame hother hm with hold | ⟨rfl, hsent⟩
    · exact h.wire e header bytes hold
    · rw [Bool.not_not]
      exact (h.held _ _ _ (hdata header bytes (message_eq_data hsent))).1
  generalize hn : note host x act x' = n at hholding hfaithful ⊢
  cases hholding with
  | quiet hnext hout hdata hno =>
    obtain ⟨hmade, hann⟩ := quiet_history history hno
    refine ⟨?_, ?_, ?_, ?_, ?_, ?_⟩
    · intro e
      rw [hmade]
      rcases Bool.eq_or_eq_not e act.side with rfl | rfl
      · rw [hend, hnext, h.next]
      · rw [hothers, h.next]
    · intro e hfew id c hc
      rw [hmade] at hfew ⊢
      exact h.ids e hfew id c (hann e id c hc)
    · intro e hfew id c c' hc hc'
      rw [hmade] at hfew
      exact h.sole e hfew id c c' (hann e id c hc) (hann e id c' hc')
    · intro e id c hheld
      have hold : (x.ends e).outgoing = some (id, c) := by
        rcases Bool.eq_or_eq_not e act.side with rfl | rfl
        · rw [hend] at hheld
          rcases hout with hnone | hkept
          · rw [hnone] at hheld
            cases hheld
          · exact hkept.symm.trans hheld
        · rwa [hothers] at hheld
      obtain ⟨hheldAnn, hlast⟩ := h.held e id c hold
      rw [hmade]
      exact ⟨hheldAnn.mono, hlast⟩
    · intro e header bytes hm
      exact (hwire hdata e header bytes hm).mono
    · cases n with
      | none => simpa using h.faithful
      | some n =>
        exact h.faithful.snoc (hfaithful n rfl fun e o c stamp foreign heq =>
          hno e o c stamp foreign (congrArg some heq))
  | offered c stamp foreign hnext hout =>
    have hdata : ∀ header bytes,
        some (ClipboardAction.offer ⟨(x.ends act.side).nextOffer, [c.format], c.bytes.length⟩) =
          some (.data header bytes) →
        (x.ends act.side).outgoing = some (header.offerId, ⟨header.format, bytes⟩) := by
      intro header bytes heq
      cases heq
    have hside : (!act.side) ≠ act.side := by cases act.side <;> decide
    -- with no wrap, the new id is above all earlier ones
    have hid : made history act.side + 1 < 2 ^ 64 →
        (x.ends act.side).nextOffer = made history act.side + 1 := by
      intro hfew
      rw [h.next, Nat.mod_eq_of_lt hfew]
    have hnew : made history act.side + 1 < 2 ^ 64 → ∀ id c', Announced history act.side id c' →
        id < (x.ends act.side).nextOffer := by
      intro hfew id c' hc'
      have hle := h.ids _ (by omega) id c' hc'
      rw [hid hfew]
      omega
    refine ⟨?_, ?_, ?_, ?_, ?_, ?_⟩
    · intro e
      rw [Option.toList_some, made_offered]
      rcases Bool.eq_or_eq_not e act.side with rfl | rfl
      · rw [hend, hnext, h.next, if_pos rfl, Nat.mod_add_mod]
      · rw [hothers, h.next, if_neg hside.symm, Nat.add_zero]
    · intro e hfew id c' hc'
      rw [Option.toList_some, made_offered] at hfew ⊢
      rcases announced_offered hc' with hold | ⟨rfl, rfl, -⟩
      · exact (h.ids e (by omega) id c' hold).trans (Nat.le_add_right _ _)
      · rw [if_pos rfl] at hfew ⊢
        exact (hid hfew).le
    · intro e hfew id c₁ c₂ h₁ h₂
      rw [Option.toList_some, made_offered] at hfew
      rcases announced_offered h₁ with hold₁ | ⟨rfl, rfl, rfl⟩
      · rcases announced_offered h₂ with hold₂ | ⟨rfl, rfl, -⟩
        · exact h.sole e (by omega) id c₁ c₂ hold₁ hold₂
        · rw [if_pos rfl] at hfew
          exact absurd (hnew hfew _ _ hold₁) (lt_irrefl _)
      · rw [if_pos rfl] at hfew
        rcases announced_offered h₂ with hold₂ | ⟨-, -, rfl⟩
        · exact absurd (hnew hfew _ _ hold₂) (lt_irrefl _)
        · rfl
    · intro e id c' hheld
      rw [Option.toList_some, made_offered]
      rcases Bool.eq_or_eq_not e act.side with rfl | rfl
      · rw [hend, hout] at hheld
        cases hheld
        rw [if_pos rfl]
        exact ⟨⟨_, stamp, foreign, List.mem_append_right _ (List.mem_singleton_self _), rfl, rfl⟩,
          hid⟩
      · rw [hothers] at hheld
        obtain ⟨hann, hlast⟩ := h.held _ id c' hheld
        rw [if_neg hside.symm]
        exact ⟨hann.mono, hlast⟩
    · intro e header bytes hm
      exact (hwire hdata e header bytes hm).mono
    · exact h.faithful.snoc ⟨rfl, rfl, h.next _, hnew⟩

/-- **Truthful paste.** -/
theorem truthful_paste (setup : Bool → Setup) {history : List Note}
    (hr : Runs.Observed (step host) (note host) (start host setup) x history) :
    Runs.Each Faithful history :=
  (hr.invariant (Truthful.start setup) fun _ _ _ _ h hs => h.step hs).faithful

/-! ### A copy that is superseded, and one that is pasted at the other end -/

/-- Two empty clipboards, one with a change counter and one without. -/
def sampleSetup (e : Bool) : Setup :=
  ⟨⟨e, 0, none, none, false, Weather.calm⟩, true, false, Weather.calm⟩

/-- The text `hi`. -/
def sampleText : Contents := ⟨.text, [0x68, 0x69]⟩

/-- The request for the first text comes when the second one is held. -/
def sampleActs : List Act :=
  [.copy true ⟨some ⟨.text, [0x6f]⟩, none⟩, .poll true Weather.calm,
    .deliver false 0 Weather.calm, .copy true ⟨some sampleText, none⟩, .poll true Weather.calm,
    .deliver true 0 Weather.calm, .deliver false 0 Weather.calm, .deliver true 0 Weather.calm,
    .deliver false 0 Weather.calm]

def sampleNotes : List Note :=
  [.offered true ⟨1, [.text], 1⟩ ⟨.text, [0x6f]⟩ 1 false,
    .offered true ⟨2, [.text], 2⟩ sampleText 2 false,
    .answered true ⟨2, .text⟩ ⟨2, .text⟩ [0x68, 0x69], .pasted false ⟨2, .text⟩ [0x68, 0x69]]

theorem observed_sample : ∃ x, Runs.Observed (step sampleHost) (note sampleHost)
    (start sampleHost sampleSetup) x sampleNotes := by
  have hrun : (Runs.tryObserve (step sampleHost) (note sampleHost) (start sampleHost sampleSetup)
      sampleActs).map Prod.snd = some sampleNotes := by decide +kernel
  obtain ⟨⟨x, notes⟩, htry, rfl⟩ := Option.map_eq_some_iff.mp hrun
  exact ⟨x, Runs.observed_of_tryObserve .init htry⟩

theorem truthful_paste_hi : (∃ x, Runs.Observed (step sampleHost) (note sampleHost)
      (start sampleHost sampleSetup) x sampleNotes) ∧ Runs.Each Faithful sampleNotes := by
  obtain ⟨x, hr⟩ := observed_sample
  exact ⟨⟨x, hr⟩, truthful_paste sampleSetup hr⟩

/-! ### The ids start again -/

/-- The offers of an end have growing ids. -/
def Growing (before : List Note) : Note → Prop
  | .offered e offer _ _ _ =>
    ∀ offer' c stamp foreign, .offered e offer' c stamp foreign ∈ before →
      offer'.offerId < offer.offerId
  | _ => True

/-- One of two texts. -/
def beat (b : Bool) : Contents := ⟨.text, cond b [0x68] []⟩

/-- A counted end that has just announced the text `beat b`. -/
def beating (b : Bool) (counter next : ℕ) : ClipboardSync Desktop where
  clipboard := ⟨true, counter, some (beat b), none, false, Weather.calm⟩
  known := some (1 :: (beat b).bytes)
  generation := some counter
  outgoing := some (next, beat b)
  nextOffer := (next + 1) % 2 ^ 64
  enabled := true
  filesEnabled := false
  knownFiles := none

theorem poll_beating (b : Bool) (counter next : ℕ) :
    poll sampleHost (Desktop.access sampleHost) (ClipboardSync.under Weather.calm
      { beating b counter next with
        clipboard := (beating b counter next).clipboard.copy ⟨some (beat !b), none⟩ }) =
      (some (.offer ⟨(next + 1) % 2 ^ 64, [.text], (beat !b).bytes.length⟩),
        beating (!b) (counter + 1) ((next + 1) % 2 ^ 64)) := by
  have hdigest : (beat !b).digest sampleHost = .ok (1 :: (beat !b).bytes) := by cases b <;> rfl
  have hnews : (beat b).bytes ≠ (beat !b).bytes := by cases b <;> decide
  have hsmall : (beat !b).bytes.length ≤ maxContents := by cases b <;> decide
  have hformat : (beat !b).format = .text := rfl
  simp [poll, pollFiles, pollContents, moved, announce, beating, under, Weather.calm,
    Desktop.access, Desktop.generation, Desktop.readFiles, Desktop.read, Desktop.tick, Desktop.copy,
    hdigest, hnews, hsmall, hformat]

theorem exists_announced {history : List Note}
    (hr : Runs.Observed (step host) (note host) x y history) {z : LocalCopy} {o : ClipboardOffer}
    {s : ClipboardSync Desktop} {id : ℕ} {c : Contents}
    (hpoll : poll host (Desktop.access host) (ClipboardSync.under Weather.calm
      { y.ends e with clipboard := (y.ends e).clipboard.copy z }) = (some (.offer o), s))
    (hout : s.outgoing = some (id, c)) :
    ∃ t, Runs.Observed (step host) (note host) x t
      (history ++ [.offered e o c s.clipboard.counter s.clipboard.foreign]) ∧ t.ends e = s := by
  have hcopied : ∃ u, Runs.Observed (step host) (note host) x u history ∧
      u.ends e = { y.ends e with clipboard := (y.ends e).clipboard.copy z } := by
    have hcopy := hr.step (.copy e z) rfl
    simp only [note, Option.toList_none, List.append_nil] at hcopy
    exact ⟨_, hcopy, if_pos rfl⟩
  obtain ⟨u, hu, hend⟩ := hcopied
  rw [← hend] at hpoll
  have hturn : u.turn host (.poll e Weather.calm) = some (some (.offer o), s) :=
    congrArg some hpoll
  have hstep : u.step host (.poll e Weather.calm) =
      some ((u.setEnd e s).emit e (some (.offer o))) := by
    rw [step, hturn]
    rfl
  have hpolled := hu.step _ hstep
  have hsame : ((u.setEnd e s).emit e (some (.offer o))).ends e = s := if_pos rfl
  refine ⟨_, ?_, hsame⟩
  have hnote : note host u (.poll e Weather.calm) ((u.setEnd e s).emit e (some (.offer o))) =
      some (.offered e o c s.clipboard.counter s.clipboard.foreign) := by
    rw [note, hturn, hsame]
    exact congrArg (Option.map _) hout
  rw [← Option.toList_some, ← hnote]
  exact hpolled

theorem exists_offers (k : ℕ) : ∃ x before b, Runs.Observed (step sampleHost) (note sampleHost)
      (start sampleHost sampleSetup) x (before ++ [.offered true
        ⟨(k + 1) % 2 ^ 64, [.text], (beat b).bytes.length⟩ (beat b) (k + 1) false]) ∧
      x.ends true = beating b (k + 1) ((k + 1) % 2 ^ 64) ∧ before.length = k := by
  induction k with
  | zero =>
    obtain ⟨x, hx, hend⟩ := exists_announced (x := start sampleHost sampleSetup) (e := true)
      (z := ⟨some (beat true), none⟩) .init (by rfl) (by rfl)
    exact ⟨x, [], true, hx, hend, rfl⟩
  | succ k ih =>
    obtain ⟨x, before, b, hr, hend, hlen⟩ := ih
    have hpoll := poll_beating b (k + 1) ((k + 1) % 2 ^ 64)
    rw [← hend, Nat.mod_add_mod] at hpoll
    obtain ⟨y, hy, hend'⟩ := exists_announced hr hpoll rfl
    exact ⟨y, _, !b, hy, hend', by rw [List.length_append, hlen, List.length_singleton]⟩

theorem offer_ids_wrap : ∃ x history, Runs.Observed (step sampleHost) (note sampleHost)
    (start sampleHost sampleSetup) x history ∧ ¬ Runs.Each Growing history := by
  obtain ⟨x, before, b, hr, hend, -⟩ := exists_offers (2 ^ 64 - 2)
  have hpoll := poll_beating b (2 ^ 64 - 2 + 1) ((2 ^ 64 - 2 + 1) % 2 ^ 64)
  rw [← hend] at hpoll
  obtain ⟨y, hy, -⟩ := exists_announced hr hpoll rfl
  refine ⟨y, _, hy, fun h => ?_⟩
  have hlast := h _ _ [] rfl _ _ _ _ (List.mem_append_right _ (List.mem_singleton_self _))
  cases hlast

end Exchange

end NebulaDesk
