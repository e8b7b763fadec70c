/-
The reading half of an ordered stream (`ndp-transport/src/session.rs`).

`Heard` is the invariant of the peer's reader: it has taken exactly the first
`n` records of the log, whole, and its opener has accepted each of them.  With
the sending half it gives `ordered_carriers`, for every interleaving of sends and
every place a send is dropped at, up to the 2^64 records a counter can number;
`wrapped_counter` is what happens beyond.
-/
import NebulaDesk.Transport.OrderedRuns
import NebulaDesk.Crypto.RecordRun

namespace NebulaDesk

open Bytes Runs SealedMessage

namespace OrderedCarriers

variable {aead : Aead} {limits : RecordLimits} {s s' : OrderedCarriers} {c : Channel} {id : ℕ}
variable {d : Channel} {n : ℕ}

theorem openRecord_other {decrypt : (nonce aad ciphertext : List UInt8) → Option (List UInt8)}
    {o : RecordOpener} (hd : d ≠ c) (record : List UInt8) :
    (o.openRecord decrypt d record).2.channels c = o.channels c := by
  unfold RecordOpener.openRecord
  split
  · rfl
  split
  · rfl
  · exact Function.update_of_ne hd.symm _ _

/-- The reader of `c` has taken exactly the first `n` records of the log. -/
structure Heard (aead : Aead) (s : OrderedCarriers) (c : Channel) (n : ℕ) : Prop where
  le_log : n ≤ (s.carriers c).log.length
  consumed : (s.carriers c).consumed = (wireOf aead c ((s.carriers c).log.take n)).length
  consumed_le : (s.carriers c).consumed ≤ (s.carriers c).arrived
  arrived_le : (s.carriers c).arrived ≤ (s.carriers c).stream.length
  opener : (s.opener.channels c).Holds 0 {i | i < n}
  outcomes : ∃ last, (s.carriers c).outcomes =
      ((s.carriers c).log.take n).map (heard c) ++ last ∧
    (∀ o ∈ last, ∃ error, o = .error error ∧ ∀ e, error ≠ .crypto e) ∧
    ((s.carriers c).stopped = false → last = [])

/-- A step that lets the log and the stream grow and leaves the reader alone. -/
structure Unread (s s' : OrderedCarriers) (c : Channel) : Prop where
  log : (s.carriers c).log <+: (s'.carriers c).log
  stream : (s.carriers c).stream <+: (s'.carriers c).stream
  arrived : (s'.carriers c).arrived = (s.carriers c).arrived
  consumed : (s'.carriers c).consumed = (s.carriers c).consumed
  outcomes : (s'.carriers c).outcomes = (s.carriers c).outcomes
  stopped : (s'.carriers c).stopped = (s.carriers c).stopped
  opener : s'.opener.channels c = s.opener.channels c

theorem Heard.unread (h : Heard aead s c n) (hu : Unread s s' c) : Heard aead s' c n := by
  have htake : (s'.carriers c).log.take n = (s.carriers c).log.take n := by
    obtain ⟨more, hmore⟩ := hu.log
    rw [← hmore, List.take_append_of_le_length h.le_log]
  constructor
  case le_log => exact h.le_log.trans hu.log.length_le
  case consumed => rw [hu.consumed, htake, h.consumed]
  case consumed_le =>
    rw [hu.consumed, hu.arrived]
    exact h.consumed_le
  case arrived_le =>
    rw [hu.arrived]
    exact h.arrived_le.trans hu.stream.length_le
  case opener =>
    rw [hu.opener]
    exact h.opener
  case outcomes =>
    rw [hu.outcomes, hu.stopped, htake]
    exact h.outcomes

theorem Heard.start (aead : Aead) (limits : RecordLimits) (hc : c.isOrdered = true) :
    Heard aead (start limits) c 0 where
  le_log := Nat.zero_le _
  consumed := rfl
  consumed_le := le_rfl
  arrived_le := le_rfl
  opener := by
    have hwidth : ChannelState.widthOf c = 0 := by
      cases c <;> first | rfl | cases hc
    have hempty : ({i | i < 0} : Set ℕ) = ∅ := by
      ext i
      exact ⟨fun hi => absurd hi (Nat.not_lt_zero i), fun hi => absurd hi (Set.notMem_empty i)⟩
    rw [hempty, ← hwidth]
    exact ChannelState.holds_new c
  outcomes := ⟨[], rfl, nofun, fun _ => rfl⟩

theorem Heard.unread_next (h : Heard aead s c n) (hw : Written aead s c) :
    (s.carriers c).unread <+: wireOf aead c ((s.carriers c).log.drop n) := by
  have hpre : (s.carriers c).stream.take (s.carriers c).arrived <+:
      wireOf aead c (s.carriers c).log := (List.take_prefix _ _).trans hw.on_wire
  have hdrop := hpre.drop (s.carriers c).consumed
  have hsplit : wireOf aead c (s.carriers c).log =
      wireOf aead c ((s.carriers c).log.take n) ++ wireOf aead c ((s.carriers c).log.drop n) := by
    rw [← wireOf_append, List.take_append_drop]
  rwa [hsplit, List.drop_left' h.consumed.symm] at hdrop

theorem Heard.fail (h : Heard aead s c n) (hrun : (s.carriers c).stopped = false)
    {error : TransportError} (herror : ∀ e, error ≠ .crypto e) :
    Heard aead (s.setCarrier c { s.carriers c with
      outcomes := (s.carriers c).outcomes ++ [.error error]
      stopped := true }) c n := by
  obtain ⟨last, hout, -, hlast⟩ := h.outcomes
  constructor
  case le_log => simpa [setCarrier] using h.le_log
  case consumed => simpa [setCarrier] using h.consumed
  case consumed_le => simpa [setCarrier] using h.consumed_le
  case arrived_le => simpa [setCarrier] using h.arrived_le
  case opener => exact h.opener
  case outcomes =>
    refine ⟨[.error error], ?_, ?_, ?_⟩
    · simp only [setCarrier, Function.update_self]
      rw [hout, hlast hrun, List.append_nil]
    · intro o ho
      exact ⟨error, List.mem_singleton.mp ho, herror⟩
    · intro hstop
      simp [setCarrier] at hstop

theorem Heard.read (h : Heard aead s c n) (haead : aead.Correct) (hw : Written aead s c)
    (hlog : (s.carriers c).log.length ≤ 2 ^ 64) (hrun : (s.carriers c).stopped = false)
    {tail : StreamTail} (htail : tail ≠ .finished) (hread : s.readOrdered aead c tail = some s') :
    ∃ n', Heard aead s' c n' := by
  have hpre := h.unread_next hw
  unfold readOrdered at hread
  dsimp only at hread
  rcases Nat.lt_or_ge n (s.carriers c).log.length with hn | hn
  · -- a record is due: its frame is next on the wire
    have hdue : wireOf aead c ((s.carriers c).log.drop n) =
        framed aead c ((s.carriers c).log.get ⟨n, hn⟩) ++
          wireOf aead c ((s.carriers c).log.drop (n + 1)) := by
      rw [List.drop_eq_getElem_cons hn, ← List.singleton_append, wireOf_append, wireOf_singleton,
        List.get_eq_getElem]
    rw [hdue] at hpre
    have hseq := hw.numbered n hn
    have hnext := wireOf_take_succ aead c hn
    have hmem := List.get_mem (s.carriers c).log ⟨n, hn⟩
    have htake : (s.carriers c).log.take (n + 1) =
        (s.carriers c).log.take n ++ [(s.carriers c).log.get ⟨n, hn⟩] := by
      rw [List.take_add_one, List.getElem?_eq_getElem hn, Option.toList_some, List.get_eq_getElem]
    generalize (s.carriers c).log.get ⟨n, hn⟩ = e at hpre hseq hnext hmem htake
    rw [Nat.mod_eq_of_lt (by omega)] at hseq
    have hsize : (e.record aead c).length < 2 ^ 32 :=
      Nat.lt_of_le_of_lt (hw.fits e hmem) s.limits.own_lt
    rcases readFramed_framed s.limits.peer hsize hpre htail with
      ⟨-, hres⟩ | ⟨error, -, hres⟩ | hres | ⟨after, hbytes, hres⟩
    · rw [hres] at hread
      cases hread
    · rw [hres] at hread
      cases hread
      exact ⟨n, h.fail hrun (by simp)⟩
    · rw [hres] at hread
      cases hread
      exact ⟨n, h.fail hrun (by simp)⟩
    · obtain ⟨st, hst, hopen⟩ := openRecord_next haead h.opener (by omega) hseq
      rw [hres] at hread
      dsimp only at hread
      rw [hopen] at hread
      cases hread
      have hlen : (s.carriers c).unread.length - after.length = (framed aead c e).length := by
        rw [hbytes, List.length_append]
        omega
      have hfront : (framed aead c e).length ≤ (s.carriers c).unread.length := by
        rw [hbytes, List.length_append]
        omega
      have hunread : (s.carriers c).unread.length ≤
          (s.carriers c).arrived - (s.carriers c).consumed := by
        rw [Carrier.unread, List.length_drop, List.length_take]
        omega
      obtain ⟨last, hout, -, hlast⟩ := h.outcomes
      refine ⟨n + 1, ?_⟩
      constructor
      case le_log =>
        simp only [setCarrier, Function.update_self]
        omega
      case consumed =>
        simp only [setCarrier, Function.update_self]
        rw [hlen, hnext, List.length_append, h.consumed]
      case consumed_le =>
        simp only [setCarrier, Function.update_self]
        have hle := h.consumed_le
        omega
      case arrived_le => simpa [setCarrier] using h.arrived_le
      case opener =>
        simp only [setCarrier, Function.update_self]
        exact hst
      case outcomes =>
        refine ⟨[], ?_, (by simp), fun _ => rfl⟩
        simp only [setCarrier, Function.update_self]
        rw [hout, hlast hrun, htake, List.map_append]
        simp [heard]
  · -- everything that was sealed has been read
    have hnil : (s.carriers c).unread = [] := by
      rw [List.drop_eq_nil_of_le hn, wireOf_nil] at hpre
      exact List.prefix_nil.mp hpre
    rw [hnil] at hread
    rcases readFramed_nil s.limits.peer htail with ⟨-, hres⟩ | ⟨error, -, hres⟩
    · rw [hres] at hread
      cases hread
    · rw [hres] at hread
      cases hread
      exact ⟨n, h.fail hrun (by simp)⟩

/-! ### What a step does to the reader of one stream -/

theorem Unread.refl (s : OrderedCarriers) (c : Channel) : Unread s s c :=
  ⟨List.prefix_rfl, List.prefix_rfl, rfl, rfl, rfl, rfl, rfl⟩

theorem Unread.carrier {k : Carrier}
    (hcarriers : s'.carriers = Function.update s.carriers d k) (hopener : s'.opener = s.opener)
    (hlog : (s.carriers d).log <+: k.log) (hstream : (s.carriers d).stream <+: k.stream)
    (harrived : k.arrived = (s.carriers d).arrived)
    (hconsumed : k.consumed = (s.carriers d).consumed)
    (houtcomes : k.outcomes = (s.carriers d).outcomes)
    (hstopped : k.stopped = (s.carriers d).stopped) : Unread s s' c := by
  by_cases hd : c = d
  · subst hd
    constructor
    all_goals simp only [Function.update_self, *]
  · constructor
    all_goals simp only [hcarriers, Function.update_of_ne hd, hopener, List.prefix_rfl]

theorem Unread.write (s : OrderedCarriers) (id : ℕ) (d : Channel) (m : Outgoing) (bytes : List UInt8)
    (written n : ℕ) : Unread s (s.write id d m bytes written n) c := by
  unfold OrderedCarriers.write
  split
  · refine .carrier (k := { s.carriers d with
      holder := none, stream := (s.carriers d).stream ++ (bytes.drop written).take n })
      ?_ rfl List.prefix_rfl (List.prefix_append _ _) rfl rfl rfl rfl
    simp [release, OrderedCarriers.setTask, setCarrier]
  · exact .carrier rfl rfl List.prefix_rfl (List.prefix_append _ _) rfl rfl rfl rfl

theorem Unread.interrupt (s : OrderedCarriers) (id : ℕ) (t : SendTask) :
    Unread s (s.interrupt id t) c := by
  unfold OrderedCarriers.interrupt
  split
  · exact ⟨List.prefix_rfl, List.prefix_rfl, rfl, rfl, rfl, rfl, rfl⟩
  · exact .carrier rfl rfl List.prefix_rfl List.prefix_rfl rfl rfl rfl rfl

theorem Unread.elsewhere {k : Carrier} {o : RecordOpener} (hd : d ≠ c)
    (ho : o.channels c = s.opener.channels c) :
    Unread s (({ s with opener := o }).setCarrier d k) c := by
  constructor
  all_goals simp only [setCarrier, Function.update_of_ne hd.symm, List.prefix_rfl, ho]

theorem readOrdered_elsewhere {tail : StreamTail} (hd : d ≠ c)
    (h : s.readOrdered aead d tail = some s') : Unread s s' c := by
  unfold readOrdered at h
  dsimp only at h
  split at h
  · cases h
  · cases h
    exact .elsewhere hd rfl
  · cases h
    exact .elsewhere hd rfl
  · split at h
    · cases h
      exact .elsewhere hd (openRecord_other hd _)
    · cases h
      exact .elsewhere hd (openRecord_other hd _)

/-- A step of the senders, of the network or of another reader, or one of the
reader itself. -/
theorem step_reader (h : Sending aead s) (hc : c.isOrdered = true) {event : Event}
    (hs : step aead s event = some s') :
    Unread s s' c ∨
    (∃ n, (s.carriers c).arrived + n ≤ (s.carriers c).stream.length ∧
      s' = s.setCarrier c { s.carriers c with arrived := (s.carriers c).arrived + n }) ∨
    (∃ tail, tail ≠ .finished ∧ (s.carriers c).stopped = false ∧
      s.readOrdered aead c tail = some s') ∨
    s' = s.setCarrier c { s.carriers c with stopped := true } := by
  cases event with
  | call id d m =>
    obtain ⟨-, rfl⟩ := Runs.some_of_guard hs
    refine .inl ?_
    unfold call
    split
    · exact .refl s c
    · exact ⟨List.prefix_rfl, List.prefix_rfl, rfl, rfl, rfl, rfl, rfl⟩
  | lock id =>
    simp only [step] at hs
    split at hs
    · rename_i d m htask
      obtain ⟨-, rfl⟩ := Runs.some_of_guard hs
      rw [acquire_eq m (h.sized id _ htask)]
      exact .inl (.carrier rfl rfl (List.prefix_append _ _) List.prefix_rfl rfl rfl rfl rfl)
    · cases hs
  | write id n =>
    simp only [step] at hs
    split at hs
    · obtain ⟨-, rfl⟩ := Runs.some_of_guard hs
      exact .inl (.write s id _ _ _ _ n)
    · cases hs
  | interrupt id =>
    simp only [step] at hs
    split at hs
    · cases hs
      exact .inl (.interrupt s id _)
    · cases hs
  | close =>
    cases hs
    exact .inl ⟨List.prefix_rfl, List.prefix_rfl, rfl, rfl, rfl, rfl, rfl⟩
  | arrive d n =>
    obtain ⟨hle, rfl⟩ := Runs.some_of_guard hs
    by_cases hd : d = c
    · subst hd
      exact .inr (.inl ⟨n, hle, rfl⟩)
    · exact .inl (.elsewhere hd rfl)
  | read d failure =>
    simp only [step] at hs
    split at hs
    · rename_i hrun
      obtain ⟨tail, htail, hread⟩ : ∃ tail, tail ≠ .finished ∧
          s.readOrdered aead d tail = some s' := by
        cases failure with
        | none => exact ⟨.more, (by simp), hs⟩
        | some error =>
          dsimp only at hs
          split at hs
          · exact ⟨.failed error, (by simp), hs⟩
          · cases hs
      by_cases hd : d = c
      · subst hd
        exact .inr (.inr (.inl ⟨tail, htail, hrun.2, hread⟩))
      · exact .inl (readOrdered_elsewhere hd hread)
    · cases hs
  | abort d =>
    cases hs
    by_cases hd : d = c
    · subst hd
      exact .inr (.inr (.inr rfl))
    · exact .inl (.elsewhere hd rfl)
  | sealOther d m =>
    obtain ⟨-, rfl⟩ := Runs.some_of_guard hs
    exact .inl ⟨List.prefix_rfl, List.prefix_rfl, rfl, rfl, rfl, rfl, rfl⟩
  | openOther d record =>
    obtain ⟨hd, rfl⟩ := Runs.some_of_guard hs
    have hne : d ≠ c := by
      rintro rfl
      rw [hc] at hd
      cases hd
    exact .inl ⟨List.prefix_rfl, List.prefix_rfl, rfl, rfl, rfl, rfl, openRecord_other hne record⟩

theorem log_mono (h : Sending aead s) (hc : c.isOrdered = true) {event : Event}
    (hs : step aead s event = some s') : (s.carriers c).log <+: (s'.carriers c).log := by
  rcases step_reader h hc hs with hu | ⟨n, -, rfl⟩ | ⟨tail, -, -, hread⟩ | rfl
  · exact hu.log
  · simp [setCarrier]
  · obtain ⟨o, k, rfl, -, hlog, -⟩ := readOrdered_turn hread
    simp [setCarrier, hlog]
  · simp [setCarrier]

theorem heard_step (haead : aead.Correct) (h : Sending aead s) (hc : c.isOrdered = true)
    (hlog : (s.carriers c).log.length ≤ 2 ^ 64) (hh : Heard aead s c n) {event : Event}
    (hs : step aead s event = some s') : ∃ n', Heard aead s' c n' := by
  rcases step_reader h hc hs with hu | ⟨m, hle, rfl⟩ | ⟨tail, htail, hrun, hread⟩ | rfl
  · exact ⟨n, hh.unread hu⟩
  · refine ⟨n, ?_⟩
    have hconsumed := hh.consumed_le
    constructor
    case le_log => simpa [setCarrier] using hh.le_log
    case consumed => simpa [setCarrier] using hh.consumed
    case consumed_le =>
      simp only [setCarrier, Function.update_self]
      omega
    case arrived_le => simpa [setCarrier] using hle
    case opener => exact hh.opener
    case outcomes => simpa [setCarrier] using hh.outcomes
  · exact hh.read haead (h.written c hc) hlog hrun htail hread
  · refine ⟨n, ?_⟩
    obtain ⟨last, hout, herrors, -⟩ := hh.outcomes
    constructor
    case le_log => simpa [setCarrier] using hh.le_log
    case consumed => simpa [setCarrier] using hh.consumed
    case consumed_le => simpa [setCarrier] using hh.consumed_le
    case arrived_le => simpa [setCarrier] using hh.arrived_le
    case opener => exact hh.opener
    case outcomes =>
      refine ⟨last, by simpa [setCarrier] using hout, herrors, ?_⟩
      intro hstop
      simp [setCarrier] at hstop

/-- As long as a channel's counter can number its records, its reader takes them
one by one. -/
theorem reads (haead : aead.Correct) (hr : Reach (step aead) (start limits) s)
    (hc : c.isOrdered = true) : (s.carriers c).log.length ≤ 2 ^ 64 → ∃ n, Heard aead s c n := by
  refine hr.invariant_with
    (P := fun s => (s.carriers c).log.length ≤ 2 ^ 64 → ∃ n, Heard aead s c n)
    (fun _ hr' => sending hr') (fun _ => ⟨0, .start aead limits hc⟩) ?_
  intro s s' event h ih hs hlog
  have hbefore : (s.carriers c).log.length ≤ 2 ^ 64 :=
    (log_mono h hc hs).length_le.trans hlog
  obtain ⟨n, hn⟩ := ih hbefore
  exact heard_step haead h hc hbefore hn hs

/-! ### The claims about every run -/

/-- The bytes on the stream end at the end of a record, or the call that writes
the rest of the last one still holds the lock. -/
def Intact (aead : Aead) (s : OrderedCarriers) (c : Channel) : Prop :=
  (s.carriers c).stream = wireOf aead c (s.carriers c).log ∨
    ∃ id m bytes written, s.Writing c id m bytes written ∧ (s.carriers c).holder = some id ∧
      (s.carriers c).stream ++ bytes.drop written = wireOf aead c (s.carriers c).log

theorem Written.intact (h : Written aead s c) (hopen : s.closed = false) : Intact aead s c := by
  cases hheld : (s.carriers c).holder with
  | none => exact .inl (h.whole hopen hheld)
  | some id =>
    obtain ⟨m, bytes, written, hw, -, hwire⟩ := h.midway hopen id hheld
    exact .inr ⟨id, m, bytes, written, hw, hheld, hwire⟩

theorem Written.increasing (h : Written aead s c) (hlog : (s.carriers c).log.length ≤ 2 ^ 64) :
    ((s.carriers c).log.map SealedMessage.seq).Pairwise (· < ·) := by
  rw [List.pairwise_map, List.pairwise_iff_getElem]
  intro i j hi hj hij
  have hfirst := h.numbered i hi
  have hsecond := h.numbered j hj
  rw [List.get_eq_getElem, Nat.mod_eq_of_lt (by omega)] at hfirst hsecond
  dsimp only at hfirst hsecond
  omega

/-- **Ordered carriers stay in step.**  Whatever the interleaving of the sends
and wherever they are dropped: the records of a channel go onto its stream in the
order of their counters, a stream that ends inside a record which nobody is
writing any more belongs to a closed connection, and the peer's reader has cut
the stream into exactly the records that were sealed, none of which its opener
refused. -/
theorem ordered_carriers (haead : aead.Correct) (hr : Reach (step aead) (start limits) s)
    (hc : c.isOrdered = true) (hlog : (s.carriers c).log.length ≤ 2 ^ 64) :
    ((s.carriers c).log.map SealedMessage.seq).Pairwise (· < ·) ∧
    (s.carriers c).stream <+: wireOf aead c (s.carriers c).log ∧
    (s.closed = false → Intact aead s c) ∧
    ∃ n, (s.carriers c).consumed = (wireOf aead c ((s.carriers c).log.take n)).length ∧
      ∃ last, (s.carriers c).outcomes = ((s.carriers c).log.take n).map (heard c) ++ last ∧
        ∀ o ∈ last, ∃ error, o = .error error ∧ ∀ e, error ≠ .crypto e := by
  have hw := (sending hr).written c hc
  obtain ⟨n, hn⟩ := reads haead hr hc hlog
  obtain ⟨last, hout, herrors, -⟩ := hn.outcomes
  exact ⟨hw.increasing hlog, hw.on_wire, hw.intact, n, hn.consumed, last, hout, herrors⟩

def plainAead : Aead where
  cipher := Cipher.plain
  decrypt _ _ ciphertext := some (ciphertext.take (ciphertext.length - aeadTagLen))

theorem plainAead_correct : plainAead.Correct := by
  intro nonce aad msg
  simp [plainAead, Cipher.plain]

/-- `max_record` of the default configuration at both ends. -/
def defaultLimits : RecordLimits := ⟨16 * 1024 * 1024, 16 * 1024 * 1024, by decide⟩

def samplePing : Outgoing := ⟨.ping, MsgFlags.none, 0, 0, []⟩

/-- Two sends on Control: the second to be called goes first and is read, the
other is dropped in the middle of its record. -/
def sampleSends : List Event :=
  [.call 0 .control samplePing, .call 1 .control samplePing, .lock 1, .write 1 7, .write 1 29,
    .lock 0, .write 0 3, .arrive .control 39, .read .control none, .interrupt 0]

theorem ordered_carriers_pings :
    ∃ s, Reach (step plainAead) (start defaultLimits) s ∧
      s.closed = true ∧ (s.carriers .control).log.length = 2 ∧
      ((s.carriers .control).log.map SealedMessage.seq).Pairwise (· < ·) ∧
      (s.carriers .control).stream <+: wireOf plainAead .control (s.carriers .control).log ∧
      (s.closed = false → Intact plainAead s .control) ∧
      ∃ n, (s.carriers .control).consumed =
          (wireOf plainAead .control ((s.carriers .control).log.take n)).length ∧
        ∃ last, (s.carriers .control).outcomes =
            ((s.carriers .control).log.take n).map (heard .control) ++ last ∧
          ∀ o ∈ last, ∃ error, o = .error error ∧ ∀ e, error ≠ .crypto e := by
  have hrun : (tryRun (step plainAead) (start defaultLimits) sampleSends).map
      (fun s => (s.closed, (s.carriers .control).log.length)) = some (true, 2) := by
    decide +kernel
  obtain ⟨s, hs, hobs⟩ := Option.map_eq_some_iff.mp hrun
  obtain ⟨hclosed, hlen⟩ := Prod.mk.inj hobs
  have hr : Reach (step plainAead) (start defaultLimits) s := reach_of_tryRun .init hs
  exact ⟨s, hr, hclosed, hlen,
    ordered_carriers plainAead_correct hr rfl (by rw [hlen]; decide)⟩

/-! ### Beyond the counter -/

/-- Call 0 is free, and so is the stream of an open connection. -/
structure Idle (s : OrderedCarriers) (c : Channel) : Prop where
  task : s.tasks 0 = none
  holder : (s.carriers c).holder = none
  closed : s.closed = false

theorem exists_send (hr : Reach (step aead) (start limits) s) (hc : c.isOrdered = true)
    (hidle : Idle s c) {m : Outgoing}
    (hfits : m.payload.length + (headerLen + aeadTagLen) ≤ s.limits.own) :
    ∃ s', Reach (step aead) (start limits) s' ∧ Idle s' c ∧ s'.limits = s.limits ∧
      (s'.carriers c).log.length = (s.carriers c).log.length + 1 := by
  have hcall : step aead s (.call 0 c m) = some (s.setTask 0 (some ⟨c, m, .locking⟩)) := by
    simp only [step, hidle.task, hc, and_self, if_true, call, checkLen_ok.mpr hfits]
  generalize hs₁ : s.setTask 0 (some ⟨c, m, .locking⟩) = s₁ at hcall
  have htask₁ : s₁.tasks 0 = some ⟨c, m, .locking⟩ := by
    rw [← hs₁]
    simp [setTask]
  have hcarrier₁ : s₁.carriers c = s.carriers c := by rw [← hs₁]; rfl
  have hlimits₁ : s₁.limits = s.limits := by rw [← hs₁]; rfl
  have hclosed₁ : s₁.closed = false := by rw [← hs₁]; exact hidle.closed
  have hlock : step aead s₁ (.lock 0) = some (s₁.acquire aead 0 c m) := by
    simp only [step, htask₁, hcarrier₁, hidle.holder, if_true]
  rw [acquire_eq m (by rw [hlimits₁]; exact hfits)] at hlock
  generalize hbytes : framed aead c ⟨s₁.sealer.counters c, m⟩ = bytes at hlock
  have hpositive : 0 < bytes.length := by
    rw [← hbytes, length_framed, lengthPrefixLen]
    omega
  have hr₂ := (hr.step _ hcall).step _ hlock
  refine ⟨_, hr₂.step (.write 0 bytes.length) (by
    simp only [step, Function.update_self, hclosed₁, hpositive, and_self, if_true]
    rfl), ?_, ?_, ?_⟩
  · constructor
    case task => simp [write, release, setTask, setCarrier]
    case holder => simp [write, release, setTask, setCarrier]
    case closed => simp [write, release, setTask, setCarrier]
  · simpa [write, release, setTask, setCarrier] using hlimits₁
  · simp [write, release, setTask, setCarrier, hcarrier₁]

theorem exists_sends (aead : Aead) (limits : RecordLimits) (hc : c.isOrdered = true)
    (hfits : headerLen + aeadTagLen ≤ limits.own) (n : ℕ) :
    ∃ s, Reach (step aead) (start limits) s ∧ Idle s c ∧ s.limits = limits ∧
      (s.carriers c).log.length = n := by
  induction n with
  | zero => exact ⟨_, .init, ⟨rfl, rfl, rfl⟩, rfl, rfl⟩
  | succ n ih =>
    obtain ⟨s, hr, hidle, hlimits, hlen⟩ := ih
    obtain ⟨s', hr', hidle', hlimits', hlen'⟩ := exists_send hr hc hidle (m := samplePing) (by
      rw [hlimits]
      simpa [samplePing] using hfits)
    exact ⟨s', hr', hidle', hlimits'.trans hlimits, by rw [hlen', hlen]⟩

/-- The record after the first 2^64 has counter 0 again. -/
theorem wrapped_counter :
    ∃ s, Reach (step plainAead) (start defaultLimits) s ∧ s.closed = false ∧
      (s.carriers .control).stream = wireOf plainAead .control (s.carriers .control).log ∧
      ¬ ((s.carriers .control).log.map SealedMessage.seq).Pairwise (· < ·) := by
  obtain ⟨s, hr, hidle, -, hlen⟩ := exists_sends plainAead defaultLimits
    (c := .control) rfl (by decide) (2 ^ 64 + 1)
  have hw := (sending hr).written .control rfl
  refine ⟨s, hr, hidle.closed, hw.whole hidle.closed hidle.holder, ?_⟩
  intro hpairs
  rw [List.pairwise_map, List.pairwise_iff_getElem] at hpairs
  have hlt := hpairs 0 (2 ^ 64) (by omega) (by omega) (by omega)
  have hzero := hw.numbered 0 (by omega)
  have hagain := hw.numbered (2 ^ 64) (by omega)
  rw [List.get_eq_getElem] at hzero hagain
  dsimp only at hzero hagain
  omega

end OrderedCarriers

end NebulaDesk
