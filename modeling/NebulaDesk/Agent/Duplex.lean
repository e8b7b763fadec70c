/-
Two file engines and the messages between them.

Each engine sends and receives files at the same time.  `Duplex.step` lets one
of them make one call; a call that takes a message in finds it in flight from
the other.  What exists of one transfer is `Duplex.view`; each call is followed
here into what it does to the view of its sender's and of its receiver's half:
one step of `Transfer.Step`, or nothing, or a transfer just offered.
-/
import NebulaDesk.Agent.FilesCases

namespace NebulaDesk

open FileTransfers Flight Runs

def FileOp.message : FileOp → Option FileAction
  | .offer _ o => some (.offer o)
  | .chunk _ header data => some (.chunk header data)
  | .ack _ a => some (.ack a)
  | _ => none

namespace FileAction

def offerOf (id : ℕ) : FileAction → Option FileOffer
  | .offer o => if o.transferId = id then some o else none
  | _ => none

def chunkOf (id : ℕ) : FileAction → Option (FileChunkHeader × List UInt8)
  | .chunk header data => if header.transferId = id then some (header, data) else none
  | _ => none

def ackOf (id : ℕ) : FileAction → Option FileAck
  | .ack a => if a.transferId = id then some a else none
  | _ => none

variable {m : FileAction}

theorem offerOf_eq_some {id : ℕ} {o : FileOffer} (h : m.offerOf id = some o) :
    m = .offer o ∧ o.transferId = id := by
  cases m with
  | offer o' =>
    by_cases hid : o'.transferId = id
    · rw [offerOf, if_pos hid] at h
      cases h
      exact ⟨rfl, hid⟩
    · rw [offerOf, if_neg hid] at h
      cases h
  | _ => cases h

theorem chunkOf_eq_some {id : ℕ} {x : FileChunkHeader × List UInt8}
    (h : m.chunkOf id = some x) : m = .chunk x.1 x.2 ∧ x.1.transferId = id := by
  cases m with
  | chunk header data =>
    by_cases hid : header.transferId = id
    · rw [chunkOf, if_pos hid] at h
      cases h
      exact ⟨rfl, hid⟩
    · rw [chunkOf, if_neg hid] at h
      cases h
  | _ => cases h

theorem ackOf_eq_some {id : ℕ} {a : FileAck} (h : m.ackOf id = some a) :
    m = .ack a ∧ a.transferId = id := by
  cases m with
  | ack b =>
    by_cases hid : b.transferId = id
    · rw [ackOf, if_pos hid] at h
      cases h
      exact ⟨rfl, hid⟩
    · rw [ackOf, if_neg hid] at h
      cases h
  | _ => cases h

end FileAction

/-- Two machines, each with its engine and its file system. -/
structure Duplex where
  peer : Bool → FileTransfers × World
  /-- Messages each has sent that are under way. -/
  flight : Bool → List FileAction
  /-- Every message each has sent. -/
  sent : Bool → List FileAction
  /-- Every offer each has made, with the bytes its hash was computed over. -/
  hashed : Bool → List (FileOffer × List UInt8)
  /-- Every chunk each has sent. -/
  emitted : Bool → List (ℕ × Emission)
  /-- What each has published, by transfer. -/
  published : Bool → List (ℕ × PathBuf × List UInt8)

/-- One call by one machine; `copy` leaves the message taken in in flight. -/
structure Call where
  side : Bool
  op : FileOp
  copy : Bool

namespace Duplex

/-- What there is of the transfer `id` from `d` to the other machine. -/
def view (l : Duplex) (d : Bool) (id : ℕ) : Transfer where
  sending := (l.peer d).1.sending[id]?
  receiving := (l.peer !d).1.receiving[id]?
  offered := !((l.flight d).filterMap (FileAction.offerOf id)).isEmpty
  chunks := (l.flight d).filterMap (FileAction.chunkOf id)
  acks := (l.flight !d).filterMap (FileAction.ackOf id)
  answered := (l.sent !d).filterMap (FileAction.ackOf id)
  emitted := (l.emitted d).filterMap fun x => if x.1 = id then some x.2 else none
  published := (l.published !d).filterMap fun x => if x.1 = id then some x.2.2 else none

/-- The offer a call ends in, with the bytes that were hashed for it. -/
def hashedBy : Option FileAction → FileOp → List (FileOffer × List UInt8)
  | some (.offer o), .send _ source =>
    match source.contents with
    | .ok bytes => [(o, bytes)]
    | .error _ => []
  | _, _ => []

/-- A chunk as it was sent, with the allowance advertised by then. -/
def emission (l : Duplex) (e : Bool) : Option FileAction → List (ℕ × Emission)
  | some (.chunk header data) =>
    [(header.transferId, ⟨header.offset, data, allowance (l.view e header.transferId).answered⟩)]
  | _ => []

/-- What a call published, for the transfer of the chunk it took in. -/
def publishedBy (before after : World) : FileOp → List (ℕ × PathBuf × List UInt8)
  | .chunk _ header _ =>
    ((publications after.effects).drop (publications before.effects).length).map
      fun x => (header.transferId, x)
  | _ => []

/-- What is still under way once a call has taken its message in. -/
def remaining (l : Duplex) (c : Call) : List FileAction :=
  match c.op.message with
  | some m => taken c.copy m (l.flight !c.side)
  | none => l.flight !c.side

/-- The machine `c.side` makes its call. -/
def act (p : Bool → Platform) (l : Duplex) (c : Call) : Duplex :=
  let r := FileTransfers.apply (p c.side) (l.peer c.side) c.op
  { peer := Function.update l.peer c.side r.2
    flight := Function.update (Function.update l.flight (!c.side) (l.remaining c)) c.side
      (l.flight c.side ++ r.1.toList)
    sent := Function.update l.sent c.side (l.sent c.side ++ r.1.toList)
    hashed := Function.update l.hashed c.side (l.hashed c.side ++ hashedBy r.1 c.op)
    emitted := Function.update l.emitted c.side (l.emitted c.side ++ l.emission c.side r.1)
    published := Function.update l.published c.side
      (l.published c.side ++ publishedBy (l.peer c.side).2 r.2.2 c.op) }

/-- Whether the network may deliver a message once more: an offer never, an
acknowledgement unless it is of an empty file. -/
def repeatable (l : Duplex) (e : Bool) : FileAction → Bool
  | .offer _ => false
  | .chunk _ _ => true
  | .ack a => (l.hashed e).all fun x => x.1.transferId ≠ a.transferId || x.1.size ≠ 0

/-- Whether a call can be made: the message it takes in is in flight. -/
def enabled (copies : Bool) (l : Duplex) (c : Call) : Bool :=
  match c.op.message with
  | none => true
  | some m => (l.flight !c.side).contains m && (!c.copy || copies && l.repeatable c.side m)

def step (p : Bool → Platform) (copies : Bool) (l : Duplex) (c : Call) : Option Duplex :=
  if l.enabled copies c then some (l.act p c) else none

def start (env : Bool → Env) (fs : Bool → FileSystem) (folder : Bool → PathBuf)
    (permitted : Bool → Bool) : Duplex where
  peer e := (FileTransfers.new (folder e) (permitted e), World.start (env e) (fs e))
  flight _ := []
  sent _ := []
  hashed _ := []
  emitted _ := []
  published _ := []

/-! ### What a call changes of a transfer -/

variable (p : Bool → Platform) (l : Duplex) (c : Call)

/-- What the call puts on the wire. -/
abbrev out : Option FileAction := (FileTransfers.apply (p c.side) (l.peer c.side) c.op).1

/-- What the call leaves of the engine. -/
abbrev left : FileTransfers := (FileTransfers.apply (p c.side) (l.peer c.side) c.op).2.1

theorem view_act_sender (id : ℕ) :
    (l.act p c).view c.side id = { l.view c.side id with
      sending := (l.left p c).sending[id]?
      offered := !((l.flight c.side ++ (l.out p c).toList).filterMap
        (FileAction.offerOf id)).isEmpty
      chunks := (l.view c.side id).chunks ++ (l.out p c).toList.filterMap (FileAction.chunkOf id)
      acks := (l.remaining c).filterMap (FileAction.ackOf id)
      emitted := (l.view c.side id).emitted ++ (l.emission c.side (l.out p c)).filterMap
        fun x => if x.1 = id then some x.2 else none } := by
  simp [view, act, out, left]

theorem view_act_receiver (id : ℕ) :
    (l.act p c).view (!c.side) id = { l.view (!c.side) id with
      receiving := (l.left p c).receiving[id]?
      offered := !((l.remaining c).filterMap (FileAction.offerOf id)).isEmpty
      chunks := (l.remaining c).filterMap (FileAction.chunkOf id)
      acks := (l.view (!c.side) id).acks ++ (l.out p c).toList.filterMap (FileAction.ackOf id)
      answered := (l.view (!c.side) id).answered ++
        (l.out p c).toList.filterMap (FileAction.ackOf id)
      published := (l.view (!c.side) id).published ++
        (publishedBy (l.peer c.side).2
          (FileTransfers.apply (p c.side) (l.peer c.side) c.op).2.2 c.op).filterMap
            fun x => if x.1 = id then some x.2.2 else none } := by
  simp [view, act, out, left]

/-! ### The sender's half -/

section Sender

variable {p l c} {id : ℕ}

theorem view_sender_quiet (hout : l.out p c = none ∨ ∃ a, l.out p c = some (.ack a)) :
    (l.act p c).view c.side id = { l.view c.side id with
      sending := (l.left p c).sending[id]?
      acks := (l.remaining c).filterMap (FileAction.ackOf id) } := by
  rw [view_act_sender]
  rcases hout with hout | ⟨a, hout⟩
  · rw [hout]
    simp [view, emission]
  · rw [hout]
    simp [view, emission, FileAction.offerOf, FileAction.chunkOf, List.filterMap_cons]

theorem remaining_acks (h : ∀ m, c.op.message = some m → m.ackOf id = none) :
    (l.remaining c).filterMap (FileAction.ackOf id) = (l.view c.side id).acks := by
  unfold remaining
  split
  · rename_i m hm
    exact filterMap_taken_of_none (h m hm) _ _
  · rfl

theorem mem_of_enabled {copies : Bool} {m : FileAction} (h : l.enabled copies c = true)
    (hm : c.op.message = some m) : m ∈ l.flight (!c.side) ∧
      (c.copy = true → copies = true ∧ l.repeatable c.side m = true) := by
  unfold enabled at h
  rw [hm] at h
  simp only [Bool.and_eq_true, List.contains_iff_mem, Bool.or_eq_true, Bool.not_eq_true'] at h
  refine ⟨h.1, fun hc => ?_⟩
  rcases h.2 with hn | hy
  · rw [hc] at hn
    cases hn
  · exact hy

end Sender

end Duplex

/-- A transfer stays as it is or makes one step. -/
def Transfer.Moves (blake3 : List UInt8 → Text) (offer : FileOffer) (copies : Bool)
    (t t' : Transfer) : Prop := t' = t ∨ Transfer.Step blake3 offer copies t t'

/-- A call that has just offered a file. -/
structure Duplex.Offered (p : Bool → Platform) (l : Duplex) (c : Call) (o : FileOffer)
    (bytes : List UInt8) (s : Sending) : Prop where
  id : o.transferId = (l.peer c.side).1.nextId
  size : o.size ≤ maxFile
  hash : o.blake3 = (p c.side).blake3 bytes
  out : l.out p c = some (.offer o)
  hashed : hashedBy (l.out p c) c.op = [(o, bytes)]
  nextId : (l.left p c).nextId = (l.peer c.side).1.nextId + 1
  starts : Starts o s
  view : (l.act p c).view c.side o.transferId =
    { l.view c.side o.transferId with
      sending := some s
      offered := true }

namespace Duplex

variable {p : Bool → Platform} {l : Duplex} {copies : Bool} {blake3 : List UInt8 → Text}
  {e : Bool} {now : ℕ} {copy : Bool}

/-- **What starting a send does to the transfers.** -/
theorem send_cases (source : Source) :
    (l.out p ⟨e, .send now source, copy⟩ = none ∧
      ∀ id, (l.act p ⟨e, .send now source, copy⟩).view e id = l.view e id) ∨
    ∃ o bytes s, Offered p l ⟨e, .send now source, copy⟩ o bytes s ∧
      ∀ id, o.transferId ≠ id →
        (l.act p ⟨e, .send now source, copy⟩).view e id = l.view e id := by
  obtain ⟨hcase, hnext, -⟩ := sendFile_cases (p e).blake3 (l.peer e).1 now source
  have hview := view_act_sender p l ⟨e, .send now source, copy⟩
  generalize hsent : (l.peer e).1.sendFile (p e).blake3 now source = sent at hcase hnext
  have hout : l.out p ⟨e, .send now source, copy⟩ = sent.1.toOption := by
    rw [← hsent]
    rfl
  have hleft : l.left p ⟨e, .send now source, copy⟩ = sent.2 := by
    rw [← hsent]
    rfl
  generalize sent.1.toOption = action at hcase hout
  generalize sent.2 = ft' at hcase hleft hnext
  cases hcase with
  | failed hsend =>
    refine Or.inl ⟨hout, fun id => ?_⟩
    rw [view_sender_quiet (Or.inl hout), remaining_acks (by simp [FileOp.message]), hleft, hsend]
    rfl
  | @offered offer bytes s _ hid hsize hbytes hhash hs hft =>
    have hsending : ∀ a, (l.left p ⟨e, .send now source, copy⟩).sending[a]? =
        if offer.transferId = a then some s else (l.peer e).1.sending[a]? := by
      intro a
      rw [hleft, hft.sending, hid]
    have hnew : ∀ a, (l.act p ⟨e, .send now source, copy⟩).view e a =
        if offer.transferId = a then
          { l.view e a with
            sending := some s
            offered := true }
        else l.view e a := by
      intro a
      rw [hview, hout]
      simp only [hsending]
      rw [remaining_acks (by simp [FileOp.message])]
      split <;> simp_all [view, emission, FileAction.offerOf, FileAction.chunkOf]
    refine Or.inr ⟨offer, bytes, s, ⟨hid, hsize, hhash, hout, ?_, ?_, hs, ?_⟩, ?_⟩
    · rw [hout]
      simp [hashedBy, hbytes]
    · rw [hleft, hnext]
    · rw [hnew, if_pos rfl]
    · intro id hne
      rw [hnew, if_neg hne]

theorem pump_moves (pick : ℕ) (reads : List (Except Fault (List UInt8))) (o : FileOffer) :
    Transfer.Moves blake3 o copies (l.view e o.transferId)
      ((l.act p ⟨e, .pump now pick reads, copy⟩).view e o.transferId) := by
  obtain ⟨hcase, -, -⟩ := pump_cases (l.peer e).1 now pick reads
  have hview := view_act_sender p l ⟨e, .pump now pick reads, copy⟩ o.transferId
  have hacks : (l.remaining ⟨e, .pump now pick reads, copy⟩).filterMap
      (FileAction.ackOf o.transferId) = (l.view e o.transferId).acks :=
    remaining_acks (by simp [FileOp.message])
  generalize hpumped : (l.peer e).1.pump now pick reads = pumped at hcase
  have hout : l.out p ⟨e, .pump now pick reads, copy⟩ = pumped.1 := by
    rw [← hpumped]
    rfl
  have hleft : l.left p ⟨e, .pump now pick reads, copy⟩ = pumped.2 := by
    rw [← hpumped]
    rfl
  rw [hout, hleft, hacks] at hview
  -- A chunk of another transfer changes nothing here.
  have hother : ∀ {s : Option Sending}, Sends (l.peer e).1 pumped.2 pick s →
      pick ≠ o.transferId →
      (∀ header data, pumped.1 = some (.chunk header data) → header.transferId = pick) →
      (∀ offer, pumped.1 ≠ some (.offer offer)) →
      (l.act p ⟨e, .pump now pick reads, copy⟩).view e o.transferId =
        l.view e o.transferId := by
    intro s hft hne hchunk hoffer
    rw [hview, hft.sending, if_neg hne]
    cases hact : pumped.1 with
    | none => simp [view, emission]
    | some m =>
      cases m with
      | offer offer => exact absurd hact (hoffer offer)
      | chunk header data =>
        have := hchunk header data hact
        simp [view, emission, FileAction.offerOf, FileAction.chunkOf, List.filterMap_cons, this,
          hne]
      | ack a => simp [view, emission, FileAction.offerOf, FileAction.chunkOf, List.filterMap_cons]
  obtain ⟨action, ft'⟩ := pumped
  dsimp only at hcase hview hother
  cases hcase with
  | idle =>
    left
    rw [hview]
    simp [view, emission]
  | @empty s _ hs hready hsize hft =>
    by_cases hthis : pick = o.transferId
    · right
      subst hthis
      rw [hview, hft.sending, if_pos rfl]
      have hstep : Transfer.Step blake3 o copies (l.view e o.transferId) _ :=
        @Transfer.Step.pumpEmpty _ _ _ _ _ now hs hready hsize
      simpa [emission, FileAction.offerOf, FileAction.chunkOf, List.filterMap_cons, view]
        using hstep
    · exact Or.inl (hother hft hthis (by simp +contextual) (by simp))
  | @sent s data _ hs hready hsize hne hlen hft =>
    by_cases hthis : pick = o.transferId
    · right
      subst hthis
      rw [hview, hft.sending, if_pos rfl]
      have hstep : Transfer.Step blake3 o copies (l.view e o.transferId) _ :=
        @Transfer.Step.pump _ _ _ _ _ now _ hs hready hsize hne hlen
      simpa [emission, FileAction.offerOf, FileAction.chunkOf, List.filterMap_cons, view]
        using hstep
    · exact Or.inl (hother hft hthis (by simp +contextual) (by simp))
  | dropped hft =>
    by_cases hthis : pick = o.transferId
    · right
      rw [hview, hft.sending, if_pos hthis]
      have hstep : Transfer.Step blake3 o copies (l.view e o.transferId) _ :=
        Transfer.Step.drop
      simpa [emission, view] using hstep
    · exact Or.inl (hother hft hthis (by simp) (by simp))

theorem ack_moves (a : FileAck) (o : FileOffer)
    (hen : l.enabled copies ⟨e, .ack now a, copy⟩ = true)
    (hack : a.transferId = o.transferId → ∃ bytes, (o, bytes) ∈ l.hashed e) :
    Transfer.Moves blake3 o copies (l.view e o.transferId)
      ((l.act p ⟨e, .ack now a, copy⟩).view e o.transferId) := by
  obtain ⟨hft, -, -⟩ := onAck_cases (l.peer e).1 now a
  have hview : (l.act p ⟨e, .ack now a, copy⟩).view e o.transferId =
      { l.view e o.transferId with
        sending := ((l.peer e).1.onAck now a).sending[o.transferId]?
        acks := (l.remaining ⟨e, .ack now a, copy⟩).filterMap
          (FileAction.ackOf o.transferId) } :=
    view_sender_quiet (Or.inl rfl)
  obtain ⟨hmem, hcopy⟩ := mem_of_enabled hen rfl
  rw [hft.sending] at hview
  by_cases hthis : a.transferId = o.transferId
  · right
    have hsome : FileAction.ackOf o.transferId (.ack a) = some a := if_pos hthis
    have hin : a ∈ (l.view e o.transferId).acks :=
      List.mem_filterMap.mpr ⟨.ack a, hmem, hsome⟩
    have hacks : (l.remaining ⟨e, .ack now a, copy⟩).filterMap (FileAction.ackOf o.transferId) =
        taken copy a (l.view e o.transferId).acks := by
      exact filterMap_taken hsome (fun m hm => (FileAction.ackOf_eq_some hm).1) _ _
    rw [hview, hacks, if_pos hthis, hthis]
    refine Transfer.Step.ack hin fun hc => ?_
    obtain ⟨hcopies, hrep⟩ := hcopy hc
    refine ⟨hcopies, ?_⟩
    obtain ⟨bytes, hb⟩ := hack hthis
    have := List.all_eq_true.mp hrep _ hb
    simpa [hthis] using this
  · left
    rw [hview, if_neg hthis, remaining_acks]
    · rfl
    · rintro m ⟨⟩
      exact if_neg hthis

theorem receive_keeps_view (id : ℕ) {op : FileOp}
    (hop : (∃ now o, op = .offer now o) ∨ ∃ now header data, op = .chunk now header data)
    (hsend : (l.left p ⟨e, op, copy⟩).sending = (l.peer e).1.sending)
    (hout : l.out p ⟨e, op, copy⟩ = none ∨ ∃ a, l.out p ⟨e, op, copy⟩ = some (.ack a)) :
    (l.act p ⟨e, op, copy⟩).view e id = l.view e id := by
  have hview : (l.act p ⟨e, op, copy⟩).view e id = { l.view e id with
      sending := (l.left p ⟨e, op, copy⟩).sending[id]?
      acks := (l.remaining ⟨e, op, copy⟩).filterMap (FileAction.ackOf id) } :=
    view_sender_quiet hout
  rw [hview, hsend, remaining_acks]
  · rfl
  · intro m hm
    rcases hop with ⟨now, o, rfl⟩ | ⟨now, header, data, rfl⟩
    · cases hm
      rfl
    · cases hm
      rfl

theorem expire_moves_sender (o : FileOffer) :
    Transfer.Moves blake3 o copies (l.view e o.transferId)
      ((l.act p ⟨e, .expire now, copy⟩).view e o.transferId) := by
  have hexp := expireStalled_expires (l.peer e).1 now (l.peer e).2
  have hview : (l.act p ⟨e, .expire now, copy⟩).view e o.transferId =
      { l.view e o.transferId with
        sending := ((l.peer e).1.expireStalled now (l.peer e).2).1.sending[o.transferId]?
        acks := (l.remaining ⟨e, .expire now, copy⟩).filterMap
          (FileAction.ackOf o.transferId) } :=
    view_sender_quiet (Or.inl rfl)
  rw [remaining_acks (by simp [FileOp.message])] at hview
  rcases hexp.sending o.transferId with hs | hs
  · left
    rw [hview, hs]
    rfl
  · right
    rw [hview, hs]
    exact Transfer.Step.drop

/-! ### The receiver's half -/

theorem send_keeps_view (id : ℕ) {op : FileOp}
    (hop : (∃ now source, op = .send now source) ∨ (∃ now pick reads, op = .pump now pick reads) ∨
      ∃ now a, op = .ack now a)
    (hrecv : (l.left p ⟨e, op, copy⟩).receiving = (l.peer e).1.receiving)
    (hout : ∀ a, l.out p ⟨e, op, copy⟩ ≠ some (.ack a)) :
    (l.act p ⟨e, op, copy⟩).view (!e) id = l.view (!e) id := by
  have hview := view_act_receiver p l ⟨e, op, copy⟩ id
  have hrem : ∀ {β : Type} (f : FileAction → Option β), (∀ a, f (.ack a) = none) →
      (l.remaining ⟨e, op, copy⟩).filterMap f = (l.flight (!e)).filterMap f := by
    intro β f hf
    rcases hop with ⟨now, source, rfl⟩ | ⟨now, pick, reads, rfl⟩ | ⟨now, a, rfl⟩
    · rfl
    · rfl
    · exact filterMap_taken_of_none (hf a) _ _
  have hnone : (l.out p ⟨e, op, copy⟩).toList.filterMap (FileAction.ackOf id) = [] := by
    cases hact : l.out p ⟨e, op, copy⟩ with
    | none => rfl
    | some m =>
      cases m with
      | ack a => exact absurd hact (hout a)
      | _ => rfl
  have hpub : ∀ after, publishedBy (l.peer e).2 after op = [] := by
    intro after
    rcases hop with ⟨now, source, rfl⟩ | ⟨now, pick, reads, rfl⟩ | ⟨now, a, rfl⟩ <;> rfl
  rw [hview, hrecv, hrem _ (fun _ => rfl), hrem _ (fun _ => rfl), hnone, hpub]
  simp [view]

theorem offer_moves (o' : FileOffer) (o : FileOffer)
    (hen : l.enabled copies ⟨e, .offer now o', copy⟩ = true)
    (hone : (l.flight (!e)).filterMap (FileAction.offerOf o.transferId) = [] ∨
      (l.flight (!e)).filterMap (FileAction.offerOf o.transferId) = [o]) :
    Transfer.Moves blake3 o copies (l.view (!e) o.transferId)
      ((l.act p ⟨e, .offer now o', copy⟩).view (!e) o.transferId) := by
  obtain ⟨hcase, -⟩ := onOffer_cases (p e) (l.peer e).1 now o' (l.peer e).2
  obtain ⟨hmem, hcopy⟩ := mem_of_enabled hen rfl
  have hcopy : copy = false := by
    by_contra hc
    have := (hcopy (by simpa using hc)).2
    cases this
  subst hcopy
  have hview := view_act_receiver p l ⟨e, .offer now o', false⟩ o.transferId
  have hchunks : (l.remaining ⟨e, .offer now o', false⟩).filterMap
      (FileAction.chunkOf o.transferId) = (l.view (!e) o.transferId).chunks :=
    filterMap_taken_of_none rfl _ _
  generalize hans : (l.peer e).1.onOffer (p e) now o' (l.peer e).2 = ans at hcase
  have hout : l.out p ⟨e, .offer now o', false⟩ = ans.1.1 := by
    rw [← hans]
    rfl
  have hleft : l.left p ⟨e, .offer now o', false⟩ = ans.1.2 := by
    rw [← hans]
    rfl
  rw [hout, hleft, hchunks] at hview
  obtain ⟨⟨action, ft'⟩, w'⟩ := ans
  dsimp only at hcase hview
  by_cases hthis : o'.transferId = o.transferId
  · right
    have hsome : FileAction.offerOf o.transferId (.offer o') = some o' := if_pos hthis
    have hin : o' ∈ (l.flight (!e)).filterMap (FileAction.offerOf o.transferId) :=
      List.mem_filterMap.mpr ⟨_, hmem, hsome⟩
    -- The offer in flight for this transfer is the one that was made.
    have hlist : (l.flight (!e)).filterMap (FileAction.offerOf o.transferId) = [o] := by
      rcases hone with h | h
      · rw [h] at hin
        cases hin
      · exact h
    obtain rfl : o' = o := by
      rw [hlist] at hin
      exact List.mem_singleton.mp hin
    have hoffered : (l.view (!e) o'.transferId).offered = true := by
      show (!List.isEmpty _) = true
      rw [hlist]
      rfl
    have hrest : (l.remaining ⟨e, .offer now o', false⟩).filterMap
        (FileAction.offerOf o'.transferId) = [] := by
      refine (filterMap_taken hsome (fun m hm => (FileAction.offerOf_eq_some hm).1) _ _).trans ?_
      rw [hlist]
      simp [taken]
    rw [hrest] at hview
    cases hcase with
    | declined hft =>
      rw [hview, hft.receiving, if_pos rfl]
      have hstep : Transfer.Step blake3 o' copies _ _ := Transfer.Step.decline hoffered
      simpa [publishedBy, view] using hstep
    | accepted hr hnone hft =>
      rw [hview, hft.receiving, if_pos rfl]
      have hstep : Transfer.Step blake3 o' copies _ _ := Transfer.Step.accept hoffered hr
      simpa [publishedBy, view, FileAction.ackOf, List.filterMap_cons] using hstep
  · left
    have hrest : (l.remaining ⟨e, .offer now o', false⟩).filterMap
        (FileAction.offerOf o.transferId) =
          (l.flight (!e)).filterMap (FileAction.offerOf o.transferId) :=
      filterMap_taken_of_none
        (show FileAction.offerOf o.transferId (.offer o') = none from if_neg hthis) _ _
    rw [hrest] at hview
    cases hcase with
    | declined hft =>
      rw [hview, hft.receiving, if_neg hthis]
      simp [publishedBy, view]
    | accepted hr hnone hft =>
      rw [hview, hft.receiving, if_neg hthis]
      simp [publishedBy, view, FileAction.ackOf, hthis]

theorem chunk_moves {env : Env} (header : FileChunkHeader) (data : List UInt8) (o : FileOffer)
    (hen : l.enabled copies ⟨e, .chunk now header data, copy⟩ = true)
    (hs : Sheltered env (l.peer e).1 (l.peer e).2)
    (hleaves : env.LeavesFiles (l.peer e).1.downloads) (hblake : (p e).blake3 = blake3) :
    Transfer.Moves blake3 o copies (l.view (!e) o.transferId)
      ((l.act p ⟨e, .chunk now header data, copy⟩).view (!e) o.transferId) := by
  obtain ⟨added, hcase, hadded⟩ := onChunk_cases (p e) now header data hs hleaves
  obtain ⟨hmem, hcopy⟩ := mem_of_enabled hen rfl
  have hcopy : copy = true → copies = true := fun hc => (hcopy hc).1
  have hview := view_act_receiver p l ⟨e, .chunk now header data, copy⟩ o.transferId
  have hoffers : (l.remaining ⟨e, .chunk now header data, copy⟩).filterMap
      (FileAction.offerOf o.transferId) =
        (l.flight (!e)).filterMap (FileAction.offerOf o.transferId) :=
    filterMap_taken_of_none rfl _ _
  have hpub : publishedBy (l.peer e).2 (FileTransfers.apply (p e) (l.peer e)
      (.chunk now header data)).2.2 (.chunk now header data) =
        added.map fun x => (header.transferId, x) := by
    show ((publications _).drop _).map _ = _
    rw [show (FileTransfers.apply (p e) (l.peer e) (.chunk now header data)).2.2 =
      ((l.peer e).1.onChunk (p e) now header data (l.peer e).2).2 from rfl, hadded,
      List.drop_left]
  generalize hans : (l.peer e).1.onChunk (p e) now header data (l.peer e).2 = ans at hcase
  have hout : l.out p ⟨e, .chunk now header data, copy⟩ = ans.1.1 := by
    rw [← hans]
    rfl
  have hleft : l.left p ⟨e, .chunk now header data, copy⟩ = ans.1.2 := by
    rw [← hans]
    rfl
  rw [hout, hleft, hoffers, hpub] at hview
  rw [hblake] at hcase
  obtain ⟨⟨action, ft'⟩, w'⟩ := ans
  dsimp only at hcase hview
  by_cases hthis : header.transferId = o.transferId
  · right
    have hsome : FileAction.chunkOf o.transferId (.chunk header data) = some (header, data) :=
      if_pos hthis
    have hin : (header, data) ∈ (l.view (!e) o.transferId).chunks :=
      List.mem_filterMap.mpr ⟨_, hmem, hsome⟩
    have hrest : (l.remaining ⟨e, .chunk now header data, copy⟩).filterMap
        (FileAction.chunkOf o.transferId) =
          taken copy (header, data) (l.view (!e) o.transferId).chunks :=
      filterMap_taken hsome (fun m hm => (FileAction.chunkOf_eq_some hm).1) _ _
    have hrecv : (l.view (!e) o.transferId).receiving =
        (l.peer e).1.receiving[header.transferId]? := by
      show (l.peer (!!e)).1.receiving[o.transferId]? = _
      rw [Bool.not_not, hthis]
    rw [hrest] at hview
    cases hcase with
    | stray hr =>
      rw [hview]
      have hstep : Transfer.Step blake3 o copies _ _ := Transfer.Step.stray hin
        hcopy (hrecv.trans hr)
      simpa [view] using hstep
    | refused hr hft =>
      rw [hview, hft.receiving, if_pos hthis]
      have hstep : Transfer.Step blake3 o copies _ _ := Transfer.Step.refuse hin
        hcopy (hrecv.trans hr)
      simpa [view, FileAction.ackOf, List.filterMap_cons, failureAck, hthis] using hstep
    | @progressed r noted _ hr hfits hnoted hpart hft =>
      rw [hview, hft.receiving, if_pos hthis]
      have hstep : Transfer.Step blake3 o copies _ _ := Transfer.Step.progress hin
        hcopy (hrecv.trans hr) hfits hnoted hpart
      by_cases hd : due noted = true
      · simpa [view, FileAction.ackOf, List.filterMap_cons, dueAck, hd, hthis] using hstep
      · simpa [view, FileAction.ackOf, List.filterMap_cons, dueAck, hd, hthis] using hstep
    | @finished r noted _ path contents hr hfits hnoted hall hhash hft =>
      rw [hview, hft.receiving, if_pos hthis]
      have hstep : Transfer.Step blake3 o copies _ _ := Transfer.Step.finish hin
        hcopy (hrecv.trans hr) hfits hnoted hall hhash
      simpa [view, FileAction.ackOf, List.filterMap_cons, hthis] using hstep
  · left
    have hrest : (l.remaining ⟨e, .chunk now header data, copy⟩).filterMap
        (FileAction.chunkOf o.transferId) = (l.view (!e) o.transferId).chunks :=
      filterMap_taken_of_none
        (show FileAction.chunkOf o.transferId (.chunk header data) = none from if_neg hthis) _ _
    rw [hrest] at hview
    cases hcase with
    | stray hr =>
      rw [hview]
      simp [view]
    | refused hr hft =>
      rw [hview, hft.receiving, if_neg hthis]
      simp [view, FileAction.ackOf, failureAck, hthis]
    | @progressed r noted _ hr hfits hnoted hpart hft =>
      rw [hview, hft.receiving, if_neg hthis]
      by_cases hd : due noted = true
      · simp [view, FileAction.ackOf, dueAck, hd, hthis]
      · simp [view, dueAck, hd]
    | @finished r noted _ path contents hr hfits hnoted hall hhash hft =>
      rw [hview, hft.receiving, if_neg hthis]
      simp [view, FileAction.ackOf, hthis]

theorem expire_moves_receiver (o : FileOffer) :
    Transfer.Moves blake3 o copies (l.view (!e) o.transferId)
      ((l.act p ⟨e, .expire now, copy⟩).view (!e) o.transferId) := by
  have hexp := expireStalled_expires (l.peer e).1 now (l.peer e).2
  have hview := view_act_receiver p l ⟨e, .expire now, copy⟩ o.transferId
  have hleft : (l.left p ⟨e, .expire now, copy⟩).receiving[o.transferId]? =
      ((l.peer e).1.expireStalled now (l.peer e).2).1.receiving[o.transferId]? := rfl
  rw [hleft] at hview
  have hrecv : (l.view (!e) o.transferId).receiving = (l.peer e).1.receiving[o.transferId]? := by
    show (l.peer (!!e)).1.receiving[o.transferId]? = _
    rw [Bool.not_not]
  rcases hexp.receiving o.transferId with hr | hr
  · left
    rw [hview, hr]
    simp [view, remaining, FileOp.message, publishedBy, FileTransfers.apply, out]
  · cases hold : (l.peer e).1.receiving[o.transferId]? with
    | none =>
      left
      rw [hview, hr]
      simp [view, remaining, FileOp.message, publishedBy, FileTransfers.apply, out, hold]
    | some r =>
      right
      rw [hview, hr]
      have hstep : Transfer.Step blake3 o copies _ _ := Transfer.Step.expire (hrecv.trans hold)
      simpa [view, remaining, FileOp.message, publishedBy, FileTransfers.apply, out] using hstep

end Duplex

end NebulaDesk
