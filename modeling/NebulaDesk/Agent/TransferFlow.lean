/-
Flow control of one transfer.

Where every message is delivered once, `Flow` holds of every state of a transfer
(`Flow.step`).  The sender's and the receiver's counters are tied together by
what is in flight: a byte the sender has passed is noted by the receiver or in a
chunk in flight, and the allowance that goes with the receiver's last
acknowledgement is the sender's or in flight.  From it: the chunks emitted are
in order and inside the advertised allowance (`InOrder`), and a transfer with
nothing in flight can go on (`Flow.ready`).
-/
import NebulaDesk.Agent.Transfer
import NebulaDesk.Lib.Runs

namespace NebulaDesk

open FileTransfers Ranges Runs Flight

/-- A chunk carries the bytes that follow those before it, at most a chunk's
worth, within the offered size and the advertised allowance; it is empty only
for an empty file, and then the only one. -/
structure InOrder (offer : FileOffer) (before : List Emission) (e : Emission) : Prop where
  offset : e.offset = (before.map (·.data.length)).sum
  length : e.data.length ≤ chunkLen
  size : e.offset + e.data.length ≤ offer.size
  allowance : e.offset + e.data.length ≤ e.allowance
  nonempty : offer.size ≠ 0 → e.data ≠ []
  only : offer.size = 0 → before = []

/-- Whether the byte at `x` is in a chunk in flight. -/
def InFlight (chunks : List (FileChunkHeader × List UInt8)) (x : ℕ) : Prop :=
  ∃ m ∈ chunks, m.1.offset ≤ x ∧ x < m.1.offset + m.2.length

/-- The sender's side of `Flow`. -/
structure SenderFlow (offer : FileOffer) (chunks : List (FileChunkHeader × List UInt8))
    (answered : List FileAck) (emitted : List Emission) (s : Sending) : Prop where
  size : s.size = offer.size
  offset : s.offset ≤ s.size
  finished : s.size ≠ 0 → (s.finished = true ↔ s.offset = s.size)
  allowed : s.allowed ≤ allowance answered
  sent : (emitted.map (·.data.length)).sum = s.offset
  unsent : s.size = 0 → s.finished = false → emitted = []
  behind : ∀ m ∈ chunks, m.1.offset + m.2.length ≤ s.offset ∧ (s.size = 0 → s.finished = true)

/-- The receiver's side of `Flow`. -/
structure ReceiverFlow (offer : FileOffer) (answered : List FileAck) (r : Receiving) : Prop where
  size : r.size = offer.size
  sorted : Sorted r.ranges.list
  within : ∀ x, r.ranges.Covers x → x < r.size
  acked : r.acked ≤ r.ranges.contiguous
  due : r.ranges.contiguous < r.acked + ackEvery
  missing : r.size ≠ 0 → r.ranges.contiguous < r.size
  last : (grants answered).getLast? = some ⟨offer.transferId, r.acked, fileWindow⟩

/-- Both sides together. -/
structure JointFlow (offer : FileOffer) (chunks : List (FileChunkHeader × List UInt8))
    (acks : List FileAck) (s : Sending) (r : Receiving) : Prop where
  noted : ∀ x, r.ranges.Covers x → x < s.offset
  reached : ∀ x < s.offset, r.ranges.Covers x ∨ InFlight chunks x
  empty : s.size = 0 → s.finished = true → chunks ≠ []
  allowed : r.acked + fileWindow ≤ s.allowed ∨ ⟨offer.transferId, r.acked, fileWindow⟩ ∈ acks

/-- What every state of a transfer keeps. -/
structure Flow (offer : FileOffer) (t : Transfer) : Prop where
  idle : t.offered = true → t.receiving = none ∧ t.chunks = [] ∧ t.acks = [] ∧ t.answered = [] ∧
    t.emitted = [] ∧ t.published = [] ∧
    ∀ s, t.sending = some s → s.offset = 0 ∧ s.allowed = 0 ∧ s.finished = false
  sender : ∀ s, t.sending = some s → SenderFlow offer t.chunks t.answered t.emitted s
  receiver : ∀ r, t.receiving = some r → ReceiverFlow offer t.answered r
  joint : ∀ s r, t.sending = some s → t.receiving = some r →
    JointFlow offer t.chunks t.acks s r
  done : t.published ≠ [] → t.receiving = none ∧
    ∀ s, t.sending = some s → s.finished = true ∧ ∃ a ∈ t.acks, a.received = offer.size
  grant : ∀ a ∈ grants t.acks, a ∈ grants t.answered
  ordered : (grants t.answered).Pairwise fun a b => a.received ≤ b.received
  window : ∀ a ∈ grants t.answered, a.window = fileWindow
  emitted : Each (InOrder offer) t.emitted

theorem ReceiverFlow.allowance_eq {offer : FileOffer} {answered : List FileAck} {r : Receiving}
    (h : ReceiverFlow offer answered r) : allowance answered = r.acked + fileWindow := by
  unfold allowance
  rw [h.last]

theorem SenderFlow.mono {offer : FileOffer} {chunks chunks' : List (FileChunkHeader × List UInt8)}
    {answered answered' : List FileAck} {emitted : List Emission} {s : Sending}
    (h : SenderFlow offer chunks answered emitted s) (hsub : ∀ m ∈ chunks', m ∈ chunks)
    (hallow : allowance answered ≤ allowance answered') :
    SenderFlow offer chunks' answered' emitted s :=
  { h with
    allowed := h.allowed.trans hallow
    behind := fun m hm => h.behind m (hsub m hm) }

theorem ackEvery_lt : ackEvery < fileWindow := by decide

namespace Flow

variable {blake3 : List UInt8 → Text} {offer : FileOffer} {t t' : Transfer}
variable {s : Sending} {r : Receiving} {a : FileAck}

/-- **No deadlock.**  A transfer that goes on with nothing in flight has room. -/
theorem ready (h : Flow offer t) (hs : t.sending = some s)
    (hheld : t.receiving ≠ none ∨ t.published ≠ []) (hchunks : t.chunks = [])
    (hacks : t.acks = []) : s.finished = false ∧ s.offset < s.allowed := by
  have hsend := h.sender s hs
  cases hr : t.receiving with
  | none =>
    obtain ⟨-, a, ha, -⟩ := (h.done (hheld.resolve_left fun hne => hne hr)).2 s hs
    rw [hacks] at ha
    cases ha
  | some r =>
    have hrecv := h.receiver r hr
    have hj := h.joint s r hs hr
    -- With no chunk in flight the receiver has noted exactly what was sent.
    have hreach : s.offset ≤ r.ranges.contiguous := by
      rw [le_contiguous_iff hrecv.sorted]
      intro x hx
      rcases hj.reached x hx with hc | ⟨m, hm, -⟩
      · exact hc
      · rw [hchunks] at hm
        cases hm
    have hallowed : r.acked + fileWindow ≤ s.allowed := by
      rcases hj.allowed with ha | ha
      · exact ha
      · rw [hacks] at ha
        cases ha
    have hle : r.ranges.contiguous ≤ s.offset := by
      by_contra hc
      have := hj.noted _ (covers_of_lt_contiguous (x := s.offset) (by omega))
      omega
    have := hrecv.due
    have := ackEvery_lt
    refine ⟨?_, by omega⟩
    by_contra hfin
    have hfin : s.finished = true := by simpa using hfin
    by_cases hzero : s.size = 0
    · exact hj.empty hzero hfin hchunks
    · have := (hsend.finished hzero).mp hfin
      have := hsend.size
      have := hrecv.size
      have := hrecv.missing (by omega)
      omega

theorem acked_le (h : Flow offer t) (hr : t.receiving = some r)
    (start stop : ℕ) : r.acked ≤ (r.ranges.add start stop).contiguous := by
  have hrecv := h.receiver r hr
  refine le_trans hrecv.acked ?_
  refine contiguous_mono (hrecv.sorted.add start stop) fun x hx => ?_
  rw [covers_add hrecv.sorted]
  exact Or.inl hx

theorem start (h : Starts offer s) : Flow offer (Transfer.start s) where
  idle := by
    refine fun _ => ⟨rfl, rfl, rfl, rfl, rfl, rfl, fun s' hs => ?_⟩
    cases hs
    exact ⟨h.offset, h.allowed, h.finished⟩
  sender := by
    intro s' hs
    cases hs
    refine ⟨h.size, by rw [h.offset]; exact Nat.zero_le _, fun hne => ?_, ?_, ?_, ?_, ?_⟩
    · rw [h.finished, h.offset]
      simp only [Bool.false_eq_true, false_iff]
      omega
    · rw [h.allowed]
      exact Nat.zero_le _
    · rw [h.offset]
      rfl
    · exact fun _ _ => rfl
    · simp [Transfer.start]
  receiver := by simp [Transfer.start]
  joint := by simp [Transfer.start]
  done := by simp [Transfer.start]
  grant := by simp [Transfer.start, grants]
  ordered := by simp [Transfer.start, grants]
  window := by simp [Transfer.start, grants]
  emitted := each_nil _

/-! ### The sender's steps -/

variable {chunks : List (FileChunkHeader × List UInt8)}

theorem inFlight_append {m : FileChunkHeader × List UInt8} {x : ℕ} (h : InFlight chunks x) :
    InFlight (chunks ++ [m]) x := by
  obtain ⟨m', hm', hx⟩ := h
  exact ⟨m', List.mem_append_left _ hm', hx⟩

theorem not_idle (h : Flow offer t) (hs : t.sending = some s)
    (hready : s.ready = true) : t.offered = false := by
  by_contra ho
  obtain ⟨-, -, -, -, -, -, hall⟩ := h.idle (by simpa using ho)
  have := hall s hs
  simp only [Sending.ready, Bool.and_eq_true, decide_eq_true_eq] at hready
  omega

theorem pump (h : Flow offer t) {now : ℕ} {data : List UInt8}
    (hs : t.sending = some s) (hready : s.ready = true) (hsize : s.size ≠ 0) (hne : data ≠ [])
    (hlen : data.length ≤ wanted s) :
    Flow offer { t with
      sending := some (sentChunk s now data.length)
      chunks := t.chunks ++ [(⟨offer.transferId, s.offset⟩, data)]
      emitted := t.emitted ++ [⟨s.offset, data, allowance t.answered⟩] } := by
  have hoffer := h.not_idle hs hready
  have hsend := h.sender s hs
  simp only [Sending.ready, Bool.and_eq_true, Bool.not_eq_true', decide_eq_true_eq] at hready
  have hpos : 0 < data.length := List.length_pos_iff.mpr hne
  have hbound : data.length ≤ s.allowed - s.offset ∧ data.length ≤ s.size - s.offset ∧
      data.length ≤ chunkLen := by
    unfold wanted at hlen
    omega
  have hoff := hsend.offset
  have hallowed := hsend.allowed
  refine ⟨fun ho => ?_, ?_, h.receiver, ?_, fun hp => ⟨(h.done hp).1, fun s' hs' => ?_⟩, h.grant, h.ordered,
    h.window, ?_⟩
  · rw [hoffer] at ho
    cases ho
  · intro s' hs'
    cases hs'
    refine ⟨hsend.size, ?_, fun _ => ?_, hallowed, ?_, fun hz => absurd hz hsize, ?_⟩
    · show s.offset + data.length ≤ s.size
      omega
    · show (s.finished || decide (s.offset + data.length ≥ s.size)) = true ↔
        s.offset + data.length = s.size
      rw [hready.1, Bool.false_or, decide_eq_true_eq]
      omega
    · show ((t.emitted ++ _).map _).sum = s.offset + data.length
      rw [List.map_append, List.sum_append, hsend.sent]
      simp
    · intro m hm
      refine ⟨?_, fun hz => absurd hz hsize⟩
      rcases List.mem_append.mp hm with hm | hm
      · have := (hsend.behind m hm).1
        show m.1.offset + m.2.length ≤ s.offset + data.length
        omega
      · obtain rfl := List.mem_singleton.mp hm
        exact le_rfl
  · intro s' r hs' hr
    cases hs'
    have hj := h.joint s r hs hr
    refine ⟨fun x hx => ?_, fun x hx => ?_, fun hz => absurd hz hsize, hj.allowed⟩
    · have := hj.noted x hx
      show x < s.offset + data.length
      omega
    · by_cases hold : x < s.offset
      · exact (hj.reached x hold).imp id inFlight_append
      · -- The new bytes are in the chunk just sent.
        refine Or.inr ⟨_, List.mem_append_right _ List.mem_cons_self, ?_, hx⟩
        show s.offset ≤ x
        omega
  · obtain ⟨hfin, -⟩ := (h.done hp).2 s hs
    rw [hready.1] at hfin
    cases hfin
  · refine h.emitted.snoc ⟨hsend.sent.symm, hbound.2.2, ?_, ?_, fun _ => hne, fun hz => ?_⟩
    · have := hsend.size
      show s.offset + data.length ≤ offer.size
      omega
    · show s.offset + data.length ≤ allowance t.answered
      omega
    · exact absurd (hsend.size.trans hz) hsize

theorem pumpEmpty (h : Flow offer t) {now : ℕ} (hs : t.sending = some s)
    (hready : s.ready = true) (hsize : s.size = 0) :
    Flow offer { t with
      sending := some { s with finished := true, lastProgress := now }
      chunks := t.chunks ++ [(⟨offer.transferId, 0⟩, [])]
      emitted := t.emitted ++ [⟨0, [], allowance t.answered⟩] } := by
  have hoffer := h.not_idle hs hready
  have hsend := h.sender s hs
  simp only [Sending.ready, Bool.and_eq_true, Bool.not_eq_true', decide_eq_true_eq] at hready
  have hoff : s.offset = 0 := by
    have := hsend.offset
    omega
  refine ⟨fun ho => ?_, ?_, h.receiver, ?_, fun hp => ⟨(h.done hp).1, fun s' hs' => ?_⟩, h.grant, h.ordered,
    h.window, ?_⟩
  · rw [hoffer] at ho
    cases ho
  · intro s' hs'
    cases hs'
    refine ⟨hsend.size, hsend.offset, fun hne => absurd hsize hne, hsend.allowed, ?_, ?_, ?_⟩
    · show ((t.emitted ++ _).map _).sum = s.offset
      rw [List.map_append, List.sum_append, hsend.sent]
      simp
    · exact fun _ hf => by cases hf
    · intro m hm
      refine ⟨?_, fun _ => rfl⟩
      rcases List.mem_append.mp hm with hm | hm
      · exact (hsend.behind m hm).1
      · obtain rfl := List.mem_singleton.mp hm
        exact Nat.zero_le _
  · intro s' r hs' hr
    cases hs'
    have hj := h.joint s r hs hr
    refine ⟨hj.noted, fun x hx => ?_, fun _ _ => by simp, hj.allowed⟩
    exact (hj.reached x hx).imp id inFlight_append
  · obtain ⟨hfin, -⟩ := (h.done hp).2 s hs
    rw [hready.1] at hfin
    cases hfin
  · have hfirst : t.emitted = [] := hsend.unsent hsize hready.1
    refine h.emitted.snoc ⟨?_, Nat.zero_le _, Nat.zero_le _, Nat.zero_le _, ?_, fun _ => hfirst⟩
    · rw [hfirst]
      rfl
    · exact fun hne => absurd (hsend.size.symm.trans hsize) hne

theorem drop (h : Flow offer t) : Flow offer { t with sending := none } := by
  refine ⟨fun ho => ?_, by simp, h.receiver, by simp, fun hp => ⟨(h.done hp).1, by simp⟩, h.grant,
    h.ordered, h.window, h.emitted⟩
  obtain ⟨h1, h2, h3, h4, h5, h6, -⟩ := h.idle ho
  exact ⟨h1, h2, h3, h4, h5, h6, by simp⟩

theorem grants_snoc (answered : List FileAck) (ha : a.received ≠ failedReceived) :
    grants (answered ++ [a]) = grants answered ++ [a] := by
  rw [grants_append]
  simp [grants, ha]

theorem allowance_append (answered : List FileAck) (a : FileAck)
    (ha : a.received ≠ failedReceived) :
    allowance (answered ++ [a]) = a.received + a.window := by
  unfold allowance
  rw [grants_snoc _ ha, List.getLast?_concat]

theorem le_allowance (h : Flow offer t) (ha : a ∈ grants t.answered) :
    a.received + a.window ≤ allowance t.answered := by
  rcases List.eq_nil_or_concat (grants t.answered) with hnil | ⟨front, last, hlast⟩
  · rw [hnil] at ha
    cases ha
  · have hall : allowance t.answered = last.received + last.window := by
      unfold allowance
      rw [hlast, List.concat_eq_append, List.getLast?_concat]
    have hmem : last ∈ grants t.answered := by
      rw [hlast]
      simp
    have hord := h.ordered
    rw [hlast, List.concat_eq_append, List.pairwise_append] at hord
    rw [hlast] at ha
    rw [hall, h.window last hmem, h.window a (hlast ▸ ha)]
    rcases List.mem_append.mp (List.concat_eq_append .. ▸ ha) with ha | ha
    · have := hord.2.2 a ha last (by simp)
      omega
    · obtain rfl := List.mem_singleton.mp ha
      exact le_rfl

theorem ack (h : Flow offer t) (hmax : offer.size ≤ maxFile) {now : ℕ} (ha : a ∈ t.acks) :
    Flow offer { t with
      sending := t.sending.bind (acked now a)
      acks := t.acks.erase a } := by
  have hoffer : t.offered = false := by
    by_contra ho
    obtain ⟨-, -, hacks, -⟩ := h.idle (by simpa using ho)
    rw [hacks] at ha
    cases ha
  refine ⟨fun ho => ?_, ?_, h.receiver, ?_, fun hp => ⟨(h.done hp).1, fun s' hs' => ?_⟩, ?_, h.ordered, h.window,
    h.emitted⟩
  · rw [hoffer] at ho
    cases ho
  · intro s' hs'
    obtain ⟨s, hs, hk⟩ := Option.bind_eq_some_iff.mp hs'
    obtain ⟨hsz, hoff, hfin, hnf, -, hallowed⟩ := acked_kept hk
    have hsend := h.sender s hs
    refine ⟨hsz.trans hsend.size, by rw [hoff, hsz]; exact hsend.offset, ?_, ?_,
      hsend.sent.trans hoff.symm, ?_, ?_⟩
    · rw [hsz, hfin, hoff]
      exact hsend.finished
    · rcases hallowed with ⟨-, rfl⟩ | ⟨-, heq⟩
      · exact hsend.allowed
      · have hgrant := h.le_allowance (h.grant a (mem_grants.mpr ⟨ha, hnf⟩))
        have hsat : saturatingAdd a.received a.window ≤ a.received + a.window :=
          Nat.min_le_left _ _
        have := hsend.allowed
        show s'.allowed ≤ allowance t.answered
        omega
    · rw [hsz, hfin]
      exact hsend.unsent
    · intro m hm
      rw [hoff, hsz, hfin]
      exact hsend.behind m hm
  · intro s' r hs' hr
    obtain ⟨s, hs, hk⟩ := Option.bind_eq_some_iff.mp hs'
    obtain ⟨hsz, hoff, hfin, hnf, -, hallowed⟩ := acked_kept hk
    have hj := h.joint s r hs hr
    have hrecv := h.receiver r hr
    have hsend := h.sender s hs
    refine ⟨by rw [hoff]; exact hj.noted, by rw [hoff]; exact hj.reached, by
      rw [hsz, hfin]; exact hj.empty, ?_⟩
    have hgrows : s.allowed ≤ s'.allowed := by
      rcases hallowed with ⟨-, rfl⟩ | ⟨-, heq⟩
      · exact le_rfl
      · omega
    rcases hj.allowed with hold | hfly
    · exact Or.inl (le_trans hold hgrows)
    · by_cases hthis : a = ⟨offer.transferId, r.acked, fileWindow⟩
      · -- The acknowledgement that carries the allowance is the one delivered.
        left
        have hacked : r.acked ≤ r.size := by
          have := hrecv.acked
          by_contra hc
          have := hrecv.within r.size (covers_of_lt_contiguous (by omega))
          omega
        have := hrecv.size
        have := hsend.size
        rcases hallowed with ⟨hgt, -⟩ | ⟨-, heq⟩
        · rw [hthis] at hgt
          simp only at hgt
          omega
        · have hsat : saturatingAdd a.received a.window = r.acked + fileWindow := by
            rw [hthis]
            have hlt : maxFile + fileWindow ≤ 2 ^ 64 - 1 := by decide
            exact Nat.min_eq_left (by simp only; omega)
          omega
      · exact Or.inr ((List.mem_erase_of_ne (Ne.symm hthis)).mpr hfly)
  · obtain ⟨s, hs, hk⟩ := Option.bind_eq_some_iff.mp hs'
    obtain ⟨hsz, -, hfin, hnf, hnot, -⟩ := acked_kept hk
    obtain ⟨hdone, b, hb, hfull⟩ := (h.done hp).2 s hs
    refine ⟨hfin.trans hdone, b, ?_, hfull⟩
    have hne : b ≠ a := by
      rintro rfl
      exact hnot ⟨hdone, hfull.trans (h.sender s hs).size.symm⟩
    exact (List.mem_erase_of_ne hne).mpr hb
  · intro b hb
    obtain ⟨hb, hnf⟩ := mem_grants.mp hb
    exact h.grant b (mem_grants.mpr ⟨List.mem_of_mem_erase hb, hnf⟩)

/-! ### The receiver's steps -/

theorem grants_failure (answered : List FileAck) (id : ℕ) :
    grants (answered ++ [failureAck id]) = grants answered := by
  rw [grants_append]
  simp [grants, failureAck]

theorem accept (h : Flow offer t) (ho : t.offered = true) (hr : Accepts offer r) :
    Flow offer { t with
      offered := false
      receiving := some r
      acks := t.acks ++ [⟨offer.transferId, 0, fileWindow⟩]
      answered := t.answered ++ [⟨offer.transferId, 0, fileWindow⟩] } := by
  obtain ⟨-, hchunks, hacks, hans, hemit, hpub, hall⟩ := h.idle ho
  have hz : (0 : ℕ) ≠ failedReceived := by decide
  have hcont : r.ranges.contiguous = 0 := by
    rw [hr.ranges]
    rfl
  have hgrants : grants (t.answered ++ [⟨offer.transferId, 0, fileWindow⟩]) =
      [⟨offer.transferId, 0, fileWindow⟩] := by
    rw [hans]
    rfl
  refine ⟨fun hc => (by cases hc), ?_, ?_, ?_, ?_, ?_, ?_, ?_, h.emitted⟩
  · intro s hs
    have hsend := h.sender s hs
    exact { hsend with allowed := (hall s hs).2.1.le.trans (Nat.zero_le _) }
  · intro r' hr'
    cases hr'
    refine ⟨hr.size, by rw [hr.ranges]; exact sorted_empty, ?_, ?_, ?_, ?_, ?_⟩
    · intro x hx
      rw [hr.ranges] at hx
      exact absurd hx (not_covers_empty x)
    · rw [hr.acked]
      exact Nat.zero_le _
    · rw [hcont, hr.acked]
      decide
    · intro hne
      rw [hcont]
      omega
    · rw [hgrants, hr.acked]
      rfl
  · intro s r' hs hr'
    cases hr'
    obtain ⟨hoff, -, hfin⟩ := hall s hs
    refine ⟨fun x hx => ?_, fun x hx => by omega, fun _ hf => ?_, Or.inr ?_⟩
    · rw [hr.ranges] at hx
      exact absurd hx (not_covers_empty x)
    · rw [hfin] at hf
      cases hf
    · rw [hr.acked]
      exact List.mem_append_right _ List.mem_cons_self
  · exact fun hp => absurd hpub hp
  · intro a ha
    show a ∈ grants (t.answered ++ [_])
    rw [hans]
    rw [hacks] at ha
    exact ha
  · show (grants (t.answered ++ [_])).Pairwise _
    rw [hgrants]
    exact List.pairwise_singleton _ _
  · intro a ha
    have ha' : a ∈ grants (t.answered ++ [⟨offer.transferId, 0, fileWindow⟩]) := ha
    rw [hgrants] at ha'
    obtain rfl := List.mem_singleton.mp ha'
    rfl

theorem not_offered (h : Flow offer t) (hr : t.receiving = some r) : t.offered = false := by
  by_contra ho
  rw [(h.idle (by simpa using ho)).1] at hr
  cases hr

theorem unpublished (h : Flow offer t) (hr : t.receiving = some r) : t.published = [] := by
  by_contra hp
  rw [(h.done hp).1] at hr
  cases hr

theorem giveUp (h : Flow offer t) (hr : t.receiving = some r) (hsub : ∀ m ∈ chunks, m ∈ t.chunks)
    {acks answered : List FileAck} (hacks : ∀ a ∈ grants acks, a ∈ grants t.acks)
    (hans : grants answered = grants t.answered) :
    Flow offer { t with
      receiving := none
      chunks := chunks
      acks := acks
      answered := answered } := by
  have hallow : allowance t.answered ≤ allowance answered := by
    unfold allowance
    rw [hans]
  refine ⟨fun hc => ?_, fun s hs => ?_, by simp, by simp, fun hp => ?_, fun a ha => ?_, ?_, ?_,
    h.emitted⟩
  · rw [h.not_offered hr] at hc
    cases hc
  · exact (h.sender s hs).mono hsub hallow
  · exact absurd (h.unpublished hr) hp
  · show a ∈ grants answered
    rw [hans]
    exact h.grant a (hacks a ha)
  · show (grants answered).Pairwise _
    rw [hans]
    exact h.ordered
  · show ∀ a ∈ grants answered, _
    rw [hans]
    exact h.window

theorem decline (h : Flow offer t) (ho : t.offered = true) :
    Flow offer { t with offered := false } := by
  obtain ⟨-, -, -, -, -, hpub, -⟩ := h.idle ho
  exact ⟨fun hc => (by cases hc), h.sender, h.receiver, h.joint, fun hp => absurd hpub hp,
    h.grant, h.ordered, h.window, h.emitted⟩

/-- The receiver's record once a chunk that fits is noted. -/
structure Noted (r noted : Receiving) (m : FileChunkHeader × List UInt8) : Prop where
  size : noted.size = r.size
  acked : noted.acked = r.acked
  sorted : Sorted noted.ranges.list
  covers : ∀ x, noted.ranges.Covers x ↔
    r.ranges.Covers x ∨ (m.1.offset ≤ x ∧ x < m.1.offset + m.2.length)
  within : ∀ x, noted.ranges.Covers x → x < r.size
  acked_le : r.acked ≤ noted.ranges.contiguous
  contiguous_le : noted.ranges.contiguous ≤ r.size

variable {m : FileChunkHeader × List UInt8} {r noted : Receiving} {now : ℕ}

theorem noted_of_fits {answered : List FileAck} (hrecv : ReceiverFlow offer answered r)
    (hmax : offer.size ≤ maxFile) (hfits : saturatingAdd m.1.offset m.2.length ≤ r.size)
    (hnoted : noted = note r now m.1.offset (saturatingAdd m.1.offset m.2.length)) :
    Noted r noted m := by
  have hstop : saturatingAdd m.1.offset m.2.length = m.1.offset + m.2.length := by
    have := maxFile_lt
    have := hrecv.size
    unfold saturatingAdd failedReceived at *
    omega
  rw [hstop] at hnoted hfits
  have hranges : noted.ranges = r.ranges.add m.1.offset (m.1.offset + m.2.length) := by
    rw [hnoted]
    rfl
  have hsorted : Sorted noted.ranges.list := by
    rw [hranges]
    exact hrecv.sorted.add _ _
  have hcovers : ∀ x, noted.ranges.Covers x ↔
      r.ranges.Covers x ∨ (m.1.offset ≤ x ∧ x < m.1.offset + m.2.length) := by
    intro x
    rw [hranges]
    exact covers_add hrecv.sorted _ _ x
  have hwithin : ∀ x, noted.ranges.Covers x → x < r.size := by
    intro x hx
    rcases (hcovers x).mp hx with hx | hx
    · exact hrecv.within x hx
    · omega
  refine ⟨by rw [hnoted]; rfl, by rw [hnoted]; rfl, hsorted, hcovers, hwithin, ?_, ?_⟩
  · exact le_trans hrecv.acked (contiguous_mono hsorted fun x hx => (hcovers x).mpr (Or.inl hx))
  · by_contra hc
    have := hwithin r.size (covers_of_lt_contiguous (by omega))
    omega

theorem reached_erase (hn : Noted r noted m) {x : ℕ} (h : r.ranges.Covers x ∨ InFlight chunks x) :
    noted.ranges.Covers x ∨ InFlight (chunks.erase m) x := by
  rcases h with h | ⟨m', hm', hx⟩
  · exact Or.inl ((hn.covers x).mpr (Or.inl h))
  · by_cases heq : m' = m
    · subst heq
      exact Or.inl ((hn.covers x).mpr (Or.inr hx))
    · exact Or.inr ⟨m', (List.mem_erase_of_ne heq).mpr hm', hx⟩

theorem due_iff (hn : Noted r noted m)
    (hsize : r.size ≤ maxFile) (hpart : noted.ranges.complete noted.size = false) :
    due noted = true ↔ r.acked + ackEvery ≤ noted.ranges.contiguous := by
  have hsub : wrappingSub noted.ranges.contiguous noted.acked =
      noted.ranges.contiguous - noted.acked := by
    have := hn.acked_le
    have := hn.acked
    have := hn.contiguous_le
    have := maxFile_lt
    unfold wrappingSub failedReceived at *
    omega
  have := hn.acked
  have := hn.acked_le
  rw [due, hpart, Bool.false_or, decide_eq_true_eq, hsub]
  omega

theorem received_le (h : Flow offer t) (hr : t.receiving = some r)
    (ha : a ∈ grants t.answered) (hn : Noted r noted m) : a.received ≤ noted.ranges.contiguous := by
  have hle := h.le_allowance ha
  have hlast := (h.receiver r hr).allowance_eq
  have := h.window a ha
  have := hn.acked_le
  omega

theorem answer (h : Flow offer t) (hr : t.receiving = some r) (hn : Noted r noted m)
    (hnf : noted.ranges.contiguous ≠ failedReceived)
    (ha : a = ⟨offer.transferId, noted.ranges.contiguous, fileWindow⟩) :
    allowance t.answered ≤ allowance (t.answered ++ [a]) ∧
      (∀ b ∈ grants (t.acks ++ [a]), b ∈ grants (t.answered ++ [a])) ∧
      (grants (t.answered ++ [a])).Pairwise (fun b c => b.received ≤ c.received) ∧
      (∀ b ∈ grants (t.answered ++ [a]), b.window = fileWindow) ∧
      (grants (t.answered ++ [a])).getLast? = some a := by
  subst ha
  refine ⟨?_, fun b hb => ?_, ?_, fun b hb => ?_, ?_⟩
  all_goals try rw [grants_snoc _ hnf]
  · rw [allowance_append _ _ hnf, (h.receiver r hr).allowance_eq]
    exact Nat.add_le_add_right hn.acked_le _
  · rw [grants_snoc _ hnf] at hb
    rcases List.mem_append.mp hb with hb | hb
    · exact List.mem_append_left _ (h.grant b hb)
    · exact List.mem_append_right _ hb
  · rw [List.pairwise_append]
    refine ⟨h.ordered, List.pairwise_singleton _ _, fun b hb c hc => ?_⟩
    obtain rfl := List.mem_singleton.mp hc
    exact h.received_le hr hb hn
  · rw [grants_snoc _ hnf] at hb
    rcases List.mem_append.mp hb with hb | hb
    · exact h.window b hb
    · obtain rfl := List.mem_singleton.mp hb
      rfl
  · rw [List.getLast?_concat]

theorem noted_receiver {answered answered' : List FileAck} (hrecv : ReceiverFlow offer answered r)
    (hn : Noted r noted m) (hless : noted.ranges.contiguous < r.size) {k : ℕ}
    (hk : k ≤ noted.ranges.contiguous) (hdue : noted.ranges.contiguous < k + ackEvery)
    (hlast : (grants answered').getLast? = some ⟨offer.transferId, k, fileWindow⟩) :
    ReceiverFlow offer answered' { noted with acked := k } := by
  refine ⟨hn.size.trans hrecv.size, hn.sorted, fun x hx => ?_, hk, hdue, fun _ => ?_, hlast⟩
  · show x < noted.size
    rw [hn.size]
    exact hn.within x hx
  · show noted.ranges.contiguous < noted.size
    rw [hn.size]
    exact hless

theorem noted_joint (h : Flow offer t) (hm : m ∈ t.chunks) (hr : t.receiving = some r)
    (hs : t.sending = some s)
    (hn : Noted r noted m) (hless : noted.ranges.contiguous < r.size) {k : ℕ} {acks : List FileAck}
    (hallowed : k + fileWindow ≤ s.allowed ∨ ⟨offer.transferId, k, fileWindow⟩ ∈ acks) :
    JointFlow offer (t.chunks.erase m) acks s { noted with acked := k } := by
  refine ⟨fun x hx => ?_, fun x hx => ?_, fun hz => ?_, hallowed⟩
  · rcases (hn.covers x).mp hx with hx | hx
    · exact (h.joint s r hs hr).noted x hx
    · have := ((h.sender s hs).behind m hm).1
      omega
  · exact reached_erase hn ((h.joint s r hs hr).reached x hx)
  · have := (h.sender s hs).size
    have := (h.receiver r hr).size
    omega

theorem progress (h : Flow offer t) (hmax : offer.size ≤ maxFile) (hm : m ∈ t.chunks)
    (hr : t.receiving = some r) (hfits : saturatingAdd m.1.offset m.2.length ≤ r.size)
    (hnoted : noted = note r now m.1.offset (saturatingAdd m.1.offset m.2.length))
    (hpart : noted.ranges.complete noted.size = false) :
    Flow offer { t with
      receiving := some (acknowledge noted)
      chunks := t.chunks.erase m
      acks := t.acks ++
        if due noted then [⟨offer.transferId, noted.ranges.contiguous, fileWindow⟩] else []
      answered := t.answered ++
        if due noted then [⟨offer.transferId, noted.ranges.contiguous, fileWindow⟩] else [] } := by
  have hrecv := h.receiver r hr
  have hn := noted_of_fits hrecv hmax hfits hnoted
  have hoffer := h.not_offered hr
  have hdue := due_iff hn (hrecv.size ▸ hmax) hpart
  have hless : noted.ranges.contiguous < r.size := by
    have := hn.size
    simp only [Ranges.complete, ge_iff_le, decide_eq_false_iff_not] at hpart
    omega
  have hnf : noted.ranges.contiguous ≠ failedReceived := by
    have := maxFile_lt
    have := hrecv.size
    omega
  by_cases hd : due noted = true
  · -- An acknowledgement goes out, and the count it carries is the new one.
    have hack : acknowledge noted = { noted with acked := noted.ranges.contiguous } := by
      rw [acknowledge, if_pos hd]
    rw [if_pos hd, hack]
    obtain ⟨hallow, hgrant, hordered, hwindow, hlast⟩ := h.answer hr hn hnf rfl
    refine ⟨fun hc => ?_, fun s hs => ?_, fun r' hr' => ?_, fun s r' hs hr' => ?_,
      fun hp => absurd (h.unpublished hr) hp, hgrant, hordered, hwindow, h.emitted⟩
    · rw [hoffer] at hc
      cases hc
    · exact (h.sender s hs).mono (fun _ hm' => List.mem_of_mem_erase hm') hallow
    · cases hr'
      exact noted_receiver hrecv hn hless le_rfl (Nat.lt_add_of_pos_right (by decide)) hlast
    · cases hr'
      exact h.noted_joint hm hr hs hn hless (.inr (List.mem_append_right _ List.mem_cons_self))
  · have hack : acknowledge noted = { noted with acked := r.acked } := by
      rw [acknowledge, if_neg hd, ← hn.acked]
    rw [if_neg hd, hack, List.append_nil, List.append_nil]
    refine ⟨fun hc => ?_, fun s hs => ?_, fun r' hr' => ?_, fun s r' hs hr' => ?_,
      fun hp => absurd (h.unpublished hr) hp, h.grant, h.ordered, h.window, h.emitted⟩
    · rw [hoffer] at hc
      cases hc
    · exact (h.sender s hs).mono (fun _ hm' => List.mem_of_mem_erase hm') le_rfl
    · cases hr'
      rw [hdue] at hd
      exact noted_receiver hrecv hn hless hn.acked_le (by omega) hrecv.last
    · cases hr'
      exact h.noted_joint hm hr hs hn hless (h.joint s r hs hr).allowed

theorem finish (h : Flow offer t) (hmax : offer.size ≤ maxFile) (hm : m ∈ t.chunks)
    (hr : t.receiving = some r) (hfits : saturatingAdd m.1.offset m.2.length ≤ r.size)
    (hnoted : noted = note r now m.1.offset (saturatingAdd m.1.offset m.2.length))
    (hall : noted.ranges.complete noted.size = true) (published : List (List UInt8)) :
    Flow offer { t with
      receiving := none
      chunks := t.chunks.erase m
      acks := t.acks ++ [⟨offer.transferId, noted.ranges.contiguous, fileWindow⟩]
      answered := t.answered ++ [⟨offer.transferId, noted.ranges.contiguous, fileWindow⟩]
      published := published } := by
  have hrecv := h.receiver r hr
  have hn := noted_of_fits hrecv hmax hfits hnoted
  have hfull : noted.ranges.contiguous = r.size := by
    have := hn.contiguous_le
    have := hn.size
    simp only [Ranges.complete, ge_iff_le, decide_eq_true_eq] at hall
    omega
  have hnf : noted.ranges.contiguous ≠ failedReceived := by
    have := maxFile_lt
    have := hrecv.size
    omega
  obtain ⟨hallow, hgrant, hordered, hwindow, -⟩ := h.answer hr hn hnf rfl
  refine ⟨fun hc => ?_, fun s hs => ?_, by simp, by simp, fun _ => ⟨rfl, fun s hs => ?_⟩, hgrant,
    hordered, hwindow, h.emitted⟩
  · rw [h.not_offered hr] at hc
    cases hc
  · exact (h.sender s hs).mono (fun _ hm' => List.mem_of_mem_erase hm') hallow
  · -- Every byte was noted, so every byte was sent.
    have hsend := h.sender s hs
    refine ⟨?_, _, List.mem_append_right _ List.mem_cons_self, hfull.trans hrecv.size⟩
    by_cases hz : s.size = 0
    · exact (hsend.behind m hm).2 hz
    · rw [hsend.finished hz]
      have hlast : s.size - 1 < s.offset := by
        have hcov : noted.ranges.Covers (s.size - 1) :=
          covers_of_lt_contiguous (by have := hsend.size; have := hrecv.size; omega)
        rcases (hn.covers _).mp hcov with hc | hc
        · exact (h.joint s r hs hr).noted _ hc
        · have := (hsend.behind m hm).1
          omega
      have := hsend.offset
      omega

theorem stray (h : Flow offer t) (hm : m ∈ t.chunks)
    (hr : t.receiving = none) : Flow offer { t with chunks := t.chunks.erase m } := by
  refine ⟨fun ho => ?_, fun s hs => ?_, h.receiver, fun s r _ hc => ?_, h.done, h.grant, h.ordered,
    h.window, h.emitted⟩
  · rw [(h.idle ho).2.1] at hm
    cases hm
  · exact (h.sender s hs).mono (fun _ hm' => List.mem_of_mem_erase hm') le_rfl
  · rw [hr] at hc
    cases hc

/-- **One step of a transfer keeps its flow**, where nothing is delivered twice. -/
theorem step (h : Flow offer t) (hmax : offer.size ≤ maxFile)
    (hst : Transfer.Step blake3 offer false t t') : Flow offer t' := by
  have hkeep : ∀ {copy : Bool}, (copy = true → false = true) → copy = false := by
    intro copy hcopy
    by_contra hc
    cases hcopy (by simpa using hc)
  cases hst with
  | pump hs hready hsize hne hlen => exact h.pump hs hready hsize hne hlen
  | pumpEmpty hs hready hsize => exact h.pumpEmpty hs hready hsize
  | drop => exact h.drop
  | accept ho hr => exact h.accept ho hr
  | decline ho => exact h.decline ho
  | stray hm hcopy hr =>
    rw [hkeep hcopy, taken_false]
    exact h.stray hm hr
  | progress hm hcopy hr hfits hnoted hpart =>
    rw [hkeep hcopy, taken_false]
    exact h.progress hmax hm hr hfits hnoted hpart
  | finish hm hcopy hr hfits hnoted hall hhash =>
    rw [hkeep hcopy, taken_false]
    exact h.finish hmax hm hr hfits hnoted hall _
  | refuse hm hcopy hr =>
    refine h.giveUp hr (fun m' hm' => mem_taken hm') ?_ (grants_failure _ _)
    intro a ha
    rwa [grants_failure] at ha
  | ack ha hcopy =>
    rw [hkeep fun hc => (hcopy hc).1, taken_false]
    exact h.ack hmax ha
  | expire hr =>
    exact h.giveUp hr (fun _ hm => hm) (fun _ ha => ha) rfl

end Flow

end NebulaDesk
