/-
One reliable channel in one direction.

`Link` is what matters for the records that one end sends on one reliable
channel: the sending half of one end, the receiving half of the other, and the
lanes between them.  `Link.Step` is everything that can happen to them; how the
paths are chosen, attached and lost is a single case of it (`steer`).

Two invariants hold along every run of steps:

* `Genuine` — every copy of a record, wherever it is, is the record that was
  numbered with its sequence, and what has been delivered is the beginning of
  what has been numbered;
* `Bounded` — a record is acknowledged only after it was received and retained
  until it is acknowledged, and never more than `window` of them are.
-/
import NebulaDesk.Multipath.Inbox

namespace NebulaDesk

namespace Multipath

/-- The sending half of an end. -/
@[ext]
structure Tx where
  records : List Request
  acknowledged : ℕ
  pending : List Pending
  sending : List Sending
  live : Prop
  epoch : ℕ
  route : Option Selected

/-- The receiving half of an end. -/
@[ext]
structure Rx where
  queued : Set Incoming
  held : List (ℕ × Incoming)
  received : ℕ
  delivered : List Incoming

structure Link extends Tx, Rx where
  closed : ℕ → Prop
  /-- The path id under which the sender has attached a connection. -/
  ids : ℕ → Option ℕ
  lanes : ℕ → Lane Copy
  opened : ℕ → Set Incoming
  /-- The counts of the acknowledgments under way. -/
  acks : Set ℕ

/-- A record as the application receives it. -/
def stamp (c : Channel) (sequence : ℕ) (r : Request) : Incoming :=
  ⟨c, { r.header with seq := UInt32.ofNat sequence }, r.payload⟩

/-- `m` is a copy of record `sequence`. -/
def Carries (c : Channel) (records : List Request) (m : Incoming) (sequence : ℕ) : Prop :=
  ∃ r epoch seq, records[sequence]? = some r ∧
    m = ⟨c, { r.header with seq := seq }, envelope sequence epoch r.payload⟩

variable {c : Channel} {records : List Request}

theorem getElem?_concat {s : ℕ} {r : Request}
    (h : records[s]? = some r) (r' : Request) : (records ++ [r'])[s]? = some r := by
  obtain ⟨hlt, -⟩ := List.getElem?_eq_some_iff.mp h
  rw [List.getElem?_append_left hlt, h]

theorem Carries.concat {m : Incoming} {s : ℕ}
    (h : Carries c records m s) (r : Request) : Carries c (records ++ [r]) m s := by
  obtain ⟨r', epoch, seq, hr, hm⟩ := h
  exact ⟨r', epoch, seq, getElem?_concat hr r, hm⟩

theorem Carries.parse {m : Incoming} {s : ℕ}
    (h : Carries c records m s) (hlen : records.length < 2 ^ 64) :
    ∃ epoch r, records[s]? = some r ∧ m.channel = c ∧
      Multipath.parse m = .ok (.data s epoch r.payload) ∧
      (⟨c, { m.header with seq := UInt32.ofNat s }, r.payload⟩ : Incoming) = stamp c s r := by
  obtain ⟨r, epoch, seq, hr, rfl⟩ := h
  obtain ⟨hlt, -⟩ := List.getElem?_eq_some_iff.mp hr
  refine ⟨epoch % 2 ^ 64, r, hr, rfl, ?_, rfl⟩
  rw [parse_envelope, Nat.mod_eq_of_lt (hlt.trans hlen)]

theorem carries_message {x : Copy} (h : records[x.sequence]? = some x.request) (n : ℕ) :
    Carries c records (x.message c n) x.sequence :=
  ⟨x.request, x.epoch, UInt32.ofNat n, h, rfl⟩

/-- What is left of a set once one message is taken out; another copy of the
message may remain. -/
structure TakenOut (m : Incoming) (before after : Set Incoming) : Prop where
  mem : m ∈ before
  subset : after ⊆ before
  others : ∀ x ∈ before, x ≠ m → x ∈ after

namespace Link

/-- The messages a native session has read, once it has opened one more or
refused it. -/
def arrived (c : Channel) (n : ℕ) (before : Set Incoming) : Except CryptoError Copy → Set Incoming
  | .ok x => insert (x.message c n) before
  | .error _ => before

/-- What can happen to a link.  Copies can be lost between the inbox and its
queue only if `lossy`. -/
inductive Step (streams : ℕ) (c : Channel) (lossy : Prop) (l : Link) : Link → Prop
  /-- The sender's routes change, connections close, acknowledgments go out. -/
  | steer (live : Prop) (epoch : ℕ) (route : Option Selected) (closed : ℕ → Prop)
      (ids : ℕ → Option ℕ) (acks : Set ℕ)
      (hlive : live → l.live) (hepoch : l.epoch ≤ epoch)
      (hkept : live → epoch = l.epoch → route = l.route)
      (hroute : live → ∀ y, route = some y → y.epoch = epoch ∧ ids y.native.conn = some y.id)
      (hclosed : ∀ k, l.closed k → closed k)
      (hids : ∀ k i, l.ids k = some i → ids k = some i)
      (hacks : ∀ v ∈ acks, v ∈ l.acks ∨ v ≤ l.received) :
      Step streams c lossy l { l with live, epoch, route, closed, ids, acks }
  | acknowledge (v : ℕ) (hv : v ∈ l.acks) :
      Step streams c lossy l { l with acknowledged := max l.acknowledged v }
  | number (r : Request) (hroom : l.pending.length < window)
      (hmax : l.records.length + 1 < 2 ^ 64) :
      Step streams c lossy l
        { l with
          records := l.records ++ [r]
          pending := l.pending ++ [⟨l.records.length, r, fun _ => none⟩] }
  | retire :
      Step streams c lossy l
        { l with pending := l.pending.dropWhile (·.sequence < l.acknowledged) }
  | attempt (y : Selected) (p : Pending) (ps : List Pending) (hlive : l.live)
      (hy : l.route = some y) (hbusy : ∀ x ∈ l.sending, x.copy.path ≠ y.id)
      (hmark : markFirst y l.pending = some (p, ps)) :
      Step streams c lossy l
        { l with
          pending := ps
          sending := l.sending ++
            [⟨⟨y.id, y.native.conn, y.epoch, p.sequence, p.request⟩, false⟩] }
  | sealCopy (i : ℕ) (x : Copy) (hx : l.sending[i]? = some ⟨x, false⟩)
      (hroom : c.isStreamPerMessage → (l.lanes x.conn).flight.length < streams) :
      Step streams c lossy l
        { l with
          sending := l.sending.set i ⟨x, true⟩
          lanes := Function.update l.lanes x.conn ((l.lanes x.conn).push x) }
  | complete (i : ℕ)
      (hdone : ∀ x, l.sending[i]? = some x → x.isSealed = true ∨ l.closed x.copy.conn) :
      Step streams c lossy l { l with sending := l.sending.eraseIdx i }
  | arrive (k n : ℕ) (x : Copy) (hx : (l.lanes k).log[n]? = some x) (hopen : ¬ l.closed k)
      (harrives : (l.lanes k).arrives c n = true) :
      Step streams c lossy l
        { l with
          lanes := Function.update l.lanes k ((l.lanes k).take c n x).2
          opened := Function.update l.opened k
            (arrived c n (l.opened k) ((l.lanes k).take c n x).1) }
  | forward (k : ℕ) (m : Incoming) (rest : Set Incoming) (hm : TakenOut m (l.opened k) rest) :
      Step streams c lossy l
        { l with
          opened := Function.update l.opened k rest
          queued := insert m l.queued }
  | absorb (m : Incoming) (rest : Set Incoming) (hm : TakenOut m l.queued rest)
      (sequence epoch : ℕ) (payload : List UInt8)
      (hparse : parse m = .ok (.data sequence epoch payload)) (held : List (ℕ × Incoming))
      (hheld : (held = l.held ∧
          (sequence < l.received ∨ sequence ∈ l.held.map Prod.fst ∨ lossy)) ∨
        (l.received ≤ sequence ∧ sequence ∉ l.held.map Prod.fst ∧
          held = (sequence, ⟨c, { m.header with seq := UInt32.ofNat sequence }, payload⟩) ::
            l.held)) :
      Step streams c lossy l { l with queued := rest, held := held }
  | deliver (m : Incoming) (hm : (l.received, m) ∈ l.held) :
      Step streams c lossy l
        { l with
          held := l.held.filter (·.1 ≠ l.received)
          received := l.received + 1
          delivered := l.delivered ++ [m] }

structure SameRoutes (l l' : Link) : Prop where
  live : l'.live = l.live
  epoch : l'.epoch = l.epoch
  route : l'.route = l.route
  closed : l'.closed = l.closed
  ids : l'.ids = l.ids
  acks : l'.acks = l.acks

structure SameRecords (l l' : Link) : Prop where
  records : l'.records = l.records
  acknowledged : l'.acknowledged = l.acknowledged
  pending : l'.pending = l.pending
  sending : l'.sending = l.sending
  rx : l'.toRx = l.toRx
  lanes : l'.lanes = l.lanes
  opened : l'.opened = l.opened

theorem SameRecords.eq {l l' : Link} (h : SameRecords l l') :
    { l with
      live := l'.live, epoch := l'.epoch, route := l'.route, closed := l'.closed, ids := l'.ids
      acks := l'.acks } = l' := by
  obtain ⟨⟨records, acknowledged, pending, sending, live, epoch, route⟩, rx, closed, ids, lanes,
    opened, acks⟩ := l'
  obtain ⟨h1, h2, h3, h4, h5, h6, h7⟩ := h
  simp only at h1 h2 h3 h4 h5 h6 h7
  simp [h1, h2, h3, h4, h5, h6, h7]

/-! ### Every copy is genuine -/

structure Genuine (c : Channel) (l : Link) : Prop where
  bound : l.records.length < 2 ^ 64
  pending : ∀ p ∈ l.pending, l.records[p.sequence]? = some p.request
  sending : ∀ x ∈ l.sending, l.records[x.copy.sequence]? = some x.copy.request
  lanes : ∀ k, ∀ x ∈ (l.lanes k).log, l.records[x.sequence]? = some x.request
  opened : ∀ k, ∀ m ∈ l.opened k, ∃ s, Carries c l.records m s
  queued : ∀ m ∈ l.queued, ∃ s, Carries c l.records m s
  held : ∀ x ∈ l.held, ∃ r, l.records[x.1]? = some r ∧ x.2 = stamp c x.1 r
  received_le : l.received ≤ l.records.length
  delivered : l.delivered = (l.records.mapIdx (stamp c)).take l.received

variable {streams : ℕ} {lossy : Prop} {l l' : Link}

theorem take_ok {α : Type} {lane : Lane α} {n : ℕ} {x y : α}
    (h : (lane.take c n x).1 = .ok y) : y = x := by
  unfold Lane.take Lane.openAt ChannelState.openWith at h
  dsimp only at h
  split at h
  · cases h
  split at h
  · cases h
  rename_i z hz
  split at h
  · cases h
  · cases h
    by_cases heq : lane.opener.expander.expand (UInt32.ofNat (n % 2 ^ 64)) = n % 2 ^ 64
    · rw [if_pos heq] at hz
      exact (Option.some.inj hz).symm
    · rw [if_neg heq] at hz
      cases hz

theorem mem_of_markFirst {y : Selected} {ps qs : List Pending} {p : Pending}
    (h : markFirst y ps = some (p, qs)) :
    p ∈ ps ∧ ∀ q ∈ qs, ∃ q' ∈ ps, q'.sequence = q.sequence ∧ q'.request = q.request := by
  obtain ⟨front, back, rfl, rfl, -, -⟩ := markFirst_eq_some h
  refine ⟨by simp, fun q hq => ?_⟩
  rcases List.mem_append.mp hq with hq | hq
  · exact ⟨q, List.mem_append_left _ hq, rfl, rfl⟩
  rcases List.mem_cons.mp hq with rfl | hq
  · exact ⟨p, by simp, rfl, rfl⟩
  · exact ⟨q, by simp [hq], rfl, rfl⟩

theorem Genuine.step (h : l.Genuine c) (hs : Step streams c lossy l l') : l'.Genuine c := by
  cases hs with
  | steer | acknowledge => exact { h with }
  | number r hroom hmax =>
    exact
      { bound := by simpa using hmax
        pending := by
          intro p hp
          rcases List.mem_append.mp hp with hp | hp
          · exact getElem?_concat (h.pending p hp) r
          · obtain rfl := List.mem_singleton.mp hp
            simp
        sending := fun x hx => getElem?_concat (h.sending x hx) r
        lanes := fun k x hx => getElem?_concat (h.lanes k x hx) r
        opened := fun k m hm => (h.opened k m hm).imp fun s hs => hs.concat r
        queued := fun m hm => (h.queued m hm).imp fun s hs => hs.concat r
        held := fun x hx => (h.held x hx).imp fun r' hr' => ⟨getElem?_concat hr'.1 r, hr'.2⟩
        received_le := by
          have := h.received_le
          simp only [List.length_append]
          omega
        delivered := by
          have hle := h.received_le
          show l.delivered = _
          rw [h.delivered, List.mapIdx_append,
            List.take_append_of_le_length (by simpa using hle)] }
  | retire =>
    exact { h with pending := fun p hp => h.pending p ((List.dropWhile_sublist _).subset hp) }
  | attempt y p ps hlive hy hbusy hmark =>
    obtain ⟨hp, hps⟩ := mem_of_markFirst hmark
    refine { h with pending := fun q hq => ?_, sending := fun x hx => ?_ }
    · obtain ⟨q', hq', hseq, hreq⟩ := hps q hq
      rw [← hseq, ← hreq]
      exact h.pending q' hq'
    · rcases List.mem_append.mp hx with hx | hx
      · exact h.sending x hx
      · obtain rfl := List.mem_singleton.mp hx
        exact h.pending p hp
  | sealCopy i x hx hroom =>
    have hgen : l.records[x.sequence]? = some x.request :=
      h.sending _ (List.mem_of_getElem? hx)
    refine { h with
      sending := fun z hz => ?_
      lanes := (Function.forall_update_iff l.lanes fun _ (lane : Lane Copy) =>
        ∀ z ∈ lane.log, l.records[z.sequence]? = some z.request).mpr
        ⟨fun z hz => ?_, fun k _ => h.lanes k⟩ }
    · rcases List.mem_or_eq_of_mem_set hz with hz | rfl
      · exact h.sending z hz
      · exact hgen
    · rcases List.mem_append.mp hz with hz | hz
      · exact h.lanes _ z hz
      · obtain rfl := List.mem_singleton.mp hz
        exact hgen
  | complete i hdone =>
    exact { h with sending := fun x hx => h.sending x (List.mem_of_mem_eraseIdx hx) }
  | arrive k n x hx hopen harrives =>
    have hgen := h.lanes k x (List.mem_of_getElem? hx)
    refine { h with
      lanes := (Function.forall_update_iff l.lanes fun _ (lane : Lane Copy) =>
        ∀ z ∈ lane.log, l.records[z.sequence]? = some z.request).mpr ⟨h.lanes k, fun k' _ => h.lanes k'⟩
      opened := (Function.forall_update_iff l.opened fun _ (ms : Set Incoming) =>
        ∀ m ∈ ms, ∃ s, Carries c l.records m s).mpr
        ⟨fun m hm => ?_, fun k' _ => h.opened k'⟩ }
    cases hz : ((l.lanes k).take c n x).1 with
    | error error =>
      rw [hz] at hm
      exact h.opened k m hm
    | ok z =>
      rw [hz] at hm
      obtain rfl := take_ok hz
      rcases hm with rfl | hm
      · exact ⟨_, carries_message hgen n⟩
      · exact h.opened k m hm
  | forward k m rest hm =>
    refine { h with
      opened := (Function.forall_update_iff l.opened fun _ (ms : Set Incoming) =>
        ∀ m ∈ ms, ∃ s, Carries c l.records m s).mpr
        ⟨fun z hz => h.opened k z (hm.subset hz), fun k' _ => h.opened k'⟩
      queued := fun z hz => ?_ }
    rcases hz with rfl | hz
    · exact h.opened k z hm.mem
    · exact h.queued z hz
  | absorb m rest hm sequence epoch payload hparse held hheld =>
    refine { h with queued := fun z hz => h.queued z (hm.subset hz), held := ?_ }
    rcases hheld with ⟨rfl, -⟩ | ⟨-, -, rfl⟩
    · exact h.held
    · intro z hz
      rcases List.mem_cons.mp hz with rfl | hz
      · obtain ⟨s, hcarries⟩ := h.queued m hm.mem
        obtain ⟨epoch', r, hr, -, hparse', hstamp⟩ := hcarries.parse h.bound
        rw [hparse] at hparse'
        cases hparse'
        exact ⟨r, hr, hstamp⟩
      · exact h.held z hz
  | deliver m hm =>
    obtain ⟨r, hr, hmr⟩ := h.held _ hm
    obtain ⟨hlt, -⟩ := List.getElem?_eq_some_iff.mp hr
    refine { h with
      held := fun z hz => h.held z (List.mem_of_mem_filter hz)
      received_le := hlt
      delivered := ?_ }
    show l.delivered ++ [m] = _
    rw [h.delivered, List.take_add_one, List.getElem?_mapIdx, hr]
    simp only at hmr
    simp [hmr]

/-! ### What is outstanding is bounded -/

/-- The records from `base` on are retained, in order. -/
def Consecutive (base : ℕ) (ps : List Pending) : Prop :=
  ps.map (·.sequence) = List.range' base ps.length

variable {ps : List Pending}

theorem consecutive_cons {base : ℕ} {p : Pending} :
    Consecutive base (p :: ps) ↔ p.sequence = base ∧ Consecutive (base + 1) ps := by
  simp [Consecutive, List.range'_succ]

theorem Consecutive.mem {base : ℕ} (h : Consecutive base ps) {s : ℕ} :
    (∃ p ∈ ps, p.sequence = s) ↔ base ≤ s ∧ s < base + ps.length := by
  rw [← List.mem_range'_1, ← h, List.mem_map]

theorem Consecutive.dropWhile {base : ℕ} (h : Consecutive base ps) (a : ℕ) :
    ∃ n ≤ ps.length, (ps.dropWhile (·.sequence < a)).length = ps.length - n ∧
      Consecutive (base + n) (ps.dropWhile (·.sequence < a)) ∧ (0 < n → base + n ≤ a) := by
  induction ps generalizing base with
  | nil => exact ⟨0, le_rfl, rfl, rfl, by simp⟩
  | cons p ps ih =>
    obtain ⟨hp, hps⟩ := consecutive_cons.mp h
    by_cases hlt : p.sequence < a
    · rw [List.dropWhile_cons_of_pos (by simpa using hlt)]
      obtain ⟨n, hn, hlen, hcons, hle⟩ := ih hps
      refine ⟨n + 1, by simpa using hn, by simpa using hlen, ?_, fun _ => ?_⟩
      · rwa [show base + (n + 1) = base + 1 + n by omega]
      · rcases Nat.eq_zero_or_pos n with rfl | hpos
        · omega
        · have := hle hpos
          omega
    · rw [List.dropWhile_cons_of_neg (by simpa using hlt)]
      exact ⟨0, by omega, by simp, h, by simp⟩

structure Bounded (l : Link) : Prop where
  acks : ∀ v ∈ l.acks, v ≤ l.received
  acked : l.acknowledged ≤ l.received
  retained : l.pending.length ≤ l.records.length
  run : Consecutive (l.records.length - l.pending.length) l.pending
  room : l.pending.length ≤ window
  base : l.records.length - l.pending.length ≤ l.acknowledged
  held : ∀ x ∈ l.held, l.received ≤ x.1
  nodup : (l.held.map Prod.fst).Nodup

theorem Bounded.step (h : l.Bounded) (hs : Step streams c lossy l l') : l'.Bounded := by
  cases hs with
  | steer live epoch route closed ids acks hlive hepoch hkept hroute hclosed hids hacks =>
    refine { h with acks := fun v hv => ?_ }
    rcases hacks v hv with hv | hv
    · exact h.acks v hv
    · exact hv
  | acknowledge v hv =>
    have hbase := h.base
    exact { h with acked := max_le h.acked (h.acks v hv), base := le_trans hbase (le_max_left _ _) }
  | number r hroom hmax =>
    have hret := h.retained
    have heq : ∀ p : Pending, (l.records ++ [r]).length - (l.pending ++ [p]).length =
        l.records.length - l.pending.length := by simp
    refine { h with
      retained := by simpa using hret
      run := ?_
      room := by simpa using hroom
      base := ?_ }
    · show Consecutive _ (l.pending ++ [_])
      rw [heq, Consecutive, List.map_append, h.run, List.length_append, List.length_singleton,
        List.range'_1_concat]
      simp only [List.map_cons, List.map_nil]
      rw [show l.records.length - l.pending.length + l.pending.length = l.records.length by omega]
    · rw [heq]
      exact h.base
  | retire =>
    obtain ⟨n, hn, hlen, hcons, hle⟩ := h.run.dropWhile l.acknowledged
    have hret := h.retained
    have hroom := h.room
    have hbase := h.base
    have hnew : l.records.length - (l.pending.dropWhile (·.sequence < l.acknowledged)).length =
        l.records.length - l.pending.length + n := by omega
    refine { h with retained := ?_, run := ?_, room := ?_, base := ?_ }
    · show (l.pending.dropWhile _).length ≤ l.records.length
      omega
    · rw [hnew]
      exact hcons
    · show (l.pending.dropWhile _).length ≤ window
      omega
    · rw [hnew]
      show _ ≤ l.acknowledged
      rcases Nat.eq_zero_or_pos n with rfl | hpos
      · omega
      · exact hle hpos
  | attempt y p ps hlive hy hbusy hmark =>
    obtain ⟨front, back, hpending, rfl, -, -⟩ := markFirst_eq_some hmark
    have hlen : (front ++ p.mark y :: back).length = l.pending.length := by simp [hpending]
    refine { h with retained := ?_, run := ?_, room := ?_, base := ?_ }
    · rw [hlen]
      exact h.retained
    · have hrun := h.run
      rw [hlen, Consecutive, hlen, ← hrun, hpending]
      simp [Pending.mark]
    · rw [hlen]
      exact h.room
    · rw [hlen]
      exact h.base
  | sealCopy | complete | arrive | forward => exact { h with }
  | absorb m rest hm sequence epoch payload hparse held hheld =>
    rcases hheld with ⟨rfl, -⟩ | ⟨hle, hnew, rfl⟩
    · exact { h with }
    · refine { h with held := fun x hx => ?_, nodup := ?_ }
      · rcases List.mem_cons.mp hx with rfl | hx
        · exact hle
        · exact h.held x hx
      · rw [List.map_cons, List.nodup_cons]
        exact ⟨hnew, h.nodup⟩
  | deliver m hm =>
    refine { h with
      acks := fun v hv => (h.acks v hv).trans (Nat.le_succ _)
      acked := h.acked.trans (Nat.le_succ _)
      held := fun x hx => ?_
      nodup := h.nodup.sublist (List.filter_sublist.map _) }
    obtain ⟨hx, hne⟩ := List.mem_filter.mp hx
    have hle := h.held x hx
    have hne' : x.1 ≠ l.received := by simpa using hne
    show l.received + 1 ≤ x.1
    omega

theorem Bounded.outstanding (h : l.Bounded) : l.records.length ≤ l.acknowledged + window := by
  have := h.base
  have := h.room
  omega

end Link

end Multipath

end NebulaDesk
