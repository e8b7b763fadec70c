/-
The sending half of an ordered stream (`ndp-transport/src/session.rs`).

`Written` is its invariant: counters are handed out in the order of the log, what
is on the stream is a prefix of the framed log, and on an open connection only
the holder of the lock can be in the middle of a record.  `Aside` lists what a
step must leave alone to keep it; `sending` gives it for every reachable state.
-/
import NebulaDesk.Transport.Framing

namespace NebulaDesk

open Bytes Runs SealedMessage

namespace OrderedCarriers

variable {aead : Aead} {limits : RecordLimits} {s s' : OrderedCarriers} {c : Channel} {id : ℕ}

/-- The call `id` is in the middle of writing on `c`. -/
def Writing (s : OrderedCarriers) (c : Channel) (id : ℕ) (m : Outgoing) (bytes : List UInt8)
    (written : ℕ) : Prop :=
  s.tasks id = some ⟨c, m, .writing bytes written⟩

/-- The sending half of one stream. -/
structure Written (aead : Aead) (s : OrderedCarriers) (c : Channel) : Prop where
  counter : s.sealer.counters c = (s.carriers c).log.length % 2 ^ 64
  numbered : ∀ (n : ℕ) (h : n < (s.carriers c).log.length),
    ((s.carriers c).log.get ⟨n, h⟩).seq = n % 2 ^ 64
  fits : ∀ e ∈ (s.carriers c).log, (e.record aead c).length ≤ s.limits.own
  on_wire : (s.carriers c).stream <+: wireOf aead c (s.carriers c).log
  locked : ∀ id m bytes written, s.Writing c id m bytes written → (s.carriers c).holder = some id
  whole : s.closed = false → (s.carriers c).holder = none →
    (s.carriers c).stream = wireOf aead c (s.carriers c).log
  midway : s.closed = false → ∀ id, (s.carriers c).holder = some id →
    ∃ m bytes written, s.Writing c id m bytes written ∧ written < bytes.length ∧
      (s.carriers c).stream ++ bytes.drop written = wireOf aead c (s.carriers c).log

/-- A step that leaves the stream, its lock and its writers alone. -/
structure Aside (s s' : OrderedCarriers) (c : Channel) : Prop where
  limits : s'.limits = s.limits
  counter : s'.sealer.counters c = s.sealer.counters c
  holder : (s'.carriers c).holder = (s.carriers c).holder
  log : (s'.carriers c).log = (s.carriers c).log
  stream : (s'.carriers c).stream = (s.carriers c).stream
  closed : s'.closed = false → s.closed = false
  writing : ∀ id m bytes written,
    s'.Writing c id m bytes written ↔ s.Writing c id m bytes written

theorem Written.aside (h : Written aead s c) (ha : Aside s s' c) : Written aead s' c where
  counter := by rw [ha.counter, ha.log, h.counter]
  numbered := by
    rw [ha.log]
    exact h.numbered
  fits := by
    rw [ha.log, ha.limits]
    exact h.fits
  on_wire := by
    rw [ha.log, ha.stream]
    exact h.on_wire
  locked := by
    intro id m bytes written hw
    rw [ha.holder]
    exact h.locked id m bytes written ((ha.writing id m bytes written).mp hw)
  whole := by
    intro hopen hfree
    rw [ha.holder] at hfree
    rw [ha.log, ha.stream]
    exact h.whole (ha.closed hopen) hfree
  midway := by
    intro hopen id hheld
    rw [ha.holder] at hheld
    obtain ⟨m, bytes, written, hw, hlt, hwire⟩ := h.midway (ha.closed hopen) id hheld
    rw [ha.log, ha.stream]
    exact ⟨m, bytes, written, (ha.writing id m bytes written).mpr hw, hlt, hwire⟩

/-- The calls that wait will fit into a frame, and wait for an ordered stream. -/
def Sized (s : OrderedCarriers) : Prop :=
  ∀ id t, s.tasks id = some t →
    t.message.payload.length + (headerLen + aeadTagLen) ≤ s.limits.own

theorem acquire_eq (m : Outgoing)
    (hfits : m.payload.length + (headerLen + aeadTagLen) ≤ s.limits.own) :
    s.acquire aead id c m =
      { s with
        sealer := ⟨Function.update s.sealer.counters c ((s.sealer.counters c + 1) % 2 ^ 64)⟩
        tasks := Function.update s.tasks id
          (some ⟨c, m, .writing (framed aead c ⟨s.sealer.counters c, m⟩) 0⟩)
        carriers := Function.update s.carriers c { s.carriers c with
          holder := some id
          log := (s.carriers c).log ++ [⟨s.sealer.counters c, m⟩] } } := by
  have hlen : checkLen (record aead c ⟨s.sealer.counters c, m⟩).length s.limits.own = .ok () := by
    rw [checkLen_ok, length_record]
    exact hfits
  have hframe : frame (record aead c ⟨s.sealer.counters c, m⟩) s.limits.own =
      .ok (framed aead c ⟨s.sealer.counters c, m⟩) := by
    rw [frame, hlen]
    rfl
  have hseal : s.sealer.sealRecord aead.cipher c m.header m.payload =
      (record aead c ⟨s.sealer.counters c, m⟩,
        ⟨Function.update s.sealer.counters c ((s.sealer.counters c + 1) % 2 ^ 64)⟩) := rfl
  unfold acquire
  rw [hseal]
  dsimp only
  rw [hframe]
  rfl

/-! ### The sending half -/

theorem Aside.refl (s : OrderedCarriers) (c : Channel) : Aside s s c :=
  ⟨rfl, rfl, rfl, rfl, rfl, id, fun _ _ _ _ => Iff.rfl⟩

/-- Replacing a task that is not writing on `c` by one that is not either. -/
theorem writing_update {t : Option SendTask} (d : Channel) (m : Outgoing) (bytes : List UInt8)
    (written j : ℕ) (hold : ∀ m bytes written, s.tasks id ≠ some ⟨d, m, .writing bytes written⟩)
    (hnew : ∀ m bytes written, t ≠ some ⟨d, m, .writing bytes written⟩) :
    Function.update s.tasks id t j = some ⟨d, m, .writing bytes written⟩ ↔
      s.tasks j = some ⟨d, m, .writing bytes written⟩ := by
  by_cases hj : j = id
  · rw [hj, Function.update_self]
    exact ⟨fun h => absurd h (hnew _ _ _), fun h => absurd h (hold _ _ _)⟩
  · rw [Function.update_of_ne hj]

theorem Written.start (aead : Aead) (limits : RecordLimits) (c : Channel) :
    Written aead (start limits) c where
  counter := rfl
  numbered := by
    intro n h
    exact absurd h (Nat.not_lt_zero n)
  fits := by
    intro e he
    exact absurd he (List.not_mem_nil)
  on_wire := List.prefix_rfl
  locked := by
    intro id m bytes written hw
    cases hw
  whole _ _ := rfl
  midway := by
    intro _ id hheld
    cases hheld

variable {m : Outgoing} {d : Channel}

theorem Written.acquire (h : Written aead s c) (hfree : (s.carriers c).holder = none)
    (hfits : m.payload.length + (headerLen + aeadTagLen) ≤ s.limits.own) :
    Written aead (s.acquire aead id c m) c := by
  have hpositive : 0 < (framed aead c ⟨s.sealer.counters c, m⟩).length := by
    rw [length_framed, lengthPrefixLen]
    omega
  rw [acquire_eq m hfits]
  constructor
  case counter =>
    simp only [Function.update_self, List.length_append, List.length_singleton, h.counter]
    omega
  case numbered =>
    intro n hn
    simp only [Function.update_self, List.length_append, List.length_singleton] at hn
    simp only [Function.update_self, List.get_eq_getElem]
    rcases Nat.lt_succ_iff_lt_or_eq.mp hn with hlt | heq
    · rw [List.getElem_append_left hlt]
      exact h.numbered n hlt
    · subst heq
      simp [h.counter]
  case fits =>
    intro e he
    simp only [Function.update_self, List.mem_append, List.mem_singleton] at he
    rcases he with he | rfl
    · exact h.fits e he
    · rw [length_record]
      exact hfits
  case on_wire =>
    simp only [Function.update_self, wireOf_append]
    exact h.on_wire.trans (List.prefix_append _ _)
  case locked =>
    intro j m' bytes written hw
    simp only [Function.update_self]
    by_cases hj : j = id
    · rw [hj]
    · -- nobody else can be writing: the lock was free
      have hw' : s.Writing c j m' bytes written := by
        simpa [Writing, hj] using hw
      have hheld := h.locked j m' bytes written hw'
      rw [hfree] at hheld
      cases hheld
  case whole =>
    intro _ hnone
    simp only [Function.update_self] at hnone
    cases hnone
  case midway =>
    intro hopen j hheld
    simp only [Function.update_self, Option.some.injEq] at hheld
    subst hheld
    refine ⟨m, _, 0, Function.update_self .., hpositive, ?_⟩
    simp only [Function.update_self, wireOf_append, wireOf_singleton, List.drop_zero]
    rw [h.whole hopen hfree]

theorem Written.alone (h : Written aead s c) {j : ℕ} {m m' : Outgoing} {bytes bytes' : List UInt8}
    {written written' : ℕ} (htask : s.Writing c id m bytes written)
    (hother : s.Writing c j m' bytes' written') : j = id := by
  have hid := h.locked id m bytes written htask
  have hj := h.locked j m' bytes' written' hother
  rw [hid] at hj
  exact (Option.some.inj hj).symm

variable {bytes : List UInt8}

theorem Written.write (h : Written aead s c) {written : ℕ} (htask : s.Writing c id m bytes written)
    (hopen : s.closed = false) (n : ℕ) : Written aead (s.write id c m bytes written n) c := by
  have hheld := h.locked id m bytes written htask
  obtain ⟨m', bytes', written', hw, hlt, hwire⟩ := h.midway hopen id hheld
  obtain ⟨rfl, rfl, rfl⟩ : m' = m ∧ bytes' = bytes ∧ written' = written := by
    rw [Writing] at hw htask
    rw [htask] at hw
    cases hw
    exact ⟨rfl, rfl, rfl⟩
  have hparts : (s.carriers c).stream ++ (bytes'.drop written').take n ++
      bytes'.drop (written' + n) = wireOf aead c (s.carriers c).log := by
    rw [List.append_assoc, ← List.drop_drop, List.take_append_drop]
    exact hwire
  unfold OrderedCarriers.write
  by_cases hend : bytes'.length ≤ written' + n
  · rw [if_pos hend]
    have hnothing : bytes'.drop (written' + n) = [] := List.drop_eq_nil_of_le hend
    rw [hnothing, List.append_nil] at hparts
    constructor
    case counter => simpa [release, setTask, setCarrier] using h.counter
    case numbered => simpa [release, setTask, setCarrier] using h.numbered
    case fits => simpa [release, setTask, setCarrier] using h.fits
    case on_wire =>
      simp only [release, setTask, setCarrier, Function.update_self]
      rw [hparts]
    case locked =>
      intro j m'' bytes'' written'' hj
      exfalso
      by_cases hne : j = id
      · simp [Writing, release, setTask, setCarrier, hne] at hj
      · have hj' : s.Writing c j m'' bytes'' written'' := by
          simpa [Writing, release, setTask, setCarrier, hne] using hj
        exact hne (h.alone htask hj')
    case whole =>
      intro _ _
      simp only [release, setTask, setCarrier, Function.update_self]
      exact hparts
    case midway =>
      intro _ j hj
      simp [release, setTask, setCarrier] at hj
  · rw [if_neg hend]
    constructor
    case counter => simpa [setTask, setCarrier] using h.counter
    case numbered => simpa [setTask, setCarrier] using h.numbered
    case fits => simpa [setTask, setCarrier] using h.fits
    case on_wire =>
      simp only [setTask, setCarrier, Function.update_self]
      rw [← hparts]
      exact List.prefix_append _ _
    case locked =>
      intro j m'' bytes'' written'' hj
      simp only [setTask, setCarrier, Function.update_self]
      by_cases hne : j = id
      · rw [hne]
        exact hheld
      · refine h.locked j m'' bytes'' written'' ?_
        simpa [Writing, setTask, setCarrier, hne] using hj
    case whole =>
      intro _ hnone
      simp only [setTask, setCarrier, Function.update_self] at hnone
      rw [hheld] at hnone
      cases hnone
    case midway =>
      intro _ j hj
      simp only [setTask, setCarrier, Function.update_self] at hj
      rw [hheld] at hj
      cases hj
      refine ⟨m', bytes', written' + n, ?_, Nat.lt_of_not_le hend, ?_⟩
      · simp [Writing, setTask, setCarrier]
      · simp only [setTask, setCarrier, Function.update_self]
        exact hparts

/-- Dropping a call in the middle of its record: the connection is closed by the
time the lock is free again. -/
theorem Written.dropped (h : Written aead s c) {written : ℕ}
    (htask : s.Writing c id m bytes written) :
    Written aead (({ s with closed := true }).release id c) c := by
  constructor
  case counter => simpa [release, setTask, setCarrier] using h.counter
  case numbered => simpa [release, setTask, setCarrier] using h.numbered
  case fits => simpa [release, setTask, setCarrier] using h.fits
  case on_wire => simpa [release, setTask, setCarrier] using h.on_wire
  case locked =>
    intro j m' bytes' written' hj
    exfalso
    by_cases hne : j = id
    · simp [Writing, release, setTask, setCarrier, hne] at hj
    · have hj' : s.Writing c j m' bytes' written' := by
        simpa [Writing, release, setTask, setCarrier, hne] using hj
      exact hne (h.alone htask hj')
  case whole =>
    intro hopen
    cases hopen
  case midway =>
    intro hopen
    cases hopen

/-! ### Steps that leave a stream aside -/

theorem Aside.call (hnone : s.tasks id = none) (d : Channel) (m : Outgoing) :
    Aside s (s.call id d m) c := by
  unfold OrderedCarriers.call
  split
  · exact .refl s c
  · refine ⟨rfl, rfl, rfl, rfl, rfl, fun h => h, ?_⟩
    intro j m' bytes written
    refine writing_update c m' bytes written j ?_ ?_
    · intro _ _ _ h
      rw [hnone] at h
      cases h
    · intro _ _ _ h
      cases h

/-- The task of another channel moves on, and with it the sealer and the stream
of that channel. -/
theorem Aside.elsewhere {t : SendTask} {u : Option SendTask} (hd : d ≠ c)
    (htask : s.tasks id = some t) (ht : t.channel = d) (hlimits : s'.limits = s.limits)
    (hcounter : s'.sealer.counters c = s.sealer.counters c)
    (hcarrier : s'.carriers c = s.carriers c) (hclosed : s'.closed = false → s.closed = false)
    (htasks : s'.tasks = Function.update s.tasks id u) (hu : ∀ t' ∈ u, t'.channel = d) :
    Aside s s' c := by
  have hold : ∀ m bytes written, s.tasks id ≠ some ⟨c, m, .writing bytes written⟩ := by
    intro m bytes written h
    rw [htask] at h
    cases h
    exact hd ht.symm
  refine ⟨hlimits, hcounter, by rw [hcarrier], by rw [hcarrier], by rw [hcarrier], hclosed, ?_⟩
  intro j m bytes written
  unfold Writing
  rw [htasks]
  refine writing_update c m bytes written j hold ?_
  intro _ _ _ h
  exact hd (hu _ h).symm

theorem Aside.reader {k : Carrier} {o : RecordOpener}
    (hholder : k.holder = (s.carriers d).holder) (hlog : k.log = (s.carriers d).log)
    (hstream : k.stream = (s.carriers d).stream) :
    Aside s (({ s with opener := o }).setCarrier d k) c := by
  have hcarrier : ∀ {α : Type} (f : Carrier → α), f k = f (s.carriers d) →
      f (Function.update s.carriers d k c) = f (s.carriers c) := by
    intro α f hf
    by_cases hc : c = d
    · rw [hc, Function.update_self, hf]
    · rw [Function.update_of_ne hc]
  exact ⟨rfl, rfl, hcarrier Carrier.holder hholder, hcarrier Carrier.log hlog,
    hcarrier Carrier.stream hstream, fun h => h, fun _ _ _ _ => Iff.rfl⟩

theorem readOrdered_turn {tail : StreamTail} (h : s.readOrdered aead c tail = some s') :
    ∃ o k, s' = ({ s with opener := o }).setCarrier c k ∧
      k.holder = (s.carriers c).holder ∧ k.log = (s.carriers c).log ∧
      k.stream = (s.carriers c).stream := by
  unfold readOrdered at h
  dsimp only at h
  split at h
  · cases h
  · cases h
    exact ⟨s.opener, _, rfl, rfl, rfl, rfl⟩
  · cases h
    exact ⟨s.opener, _, rfl, rfl, rfl, rfl⟩
  · split at h
    · cases h
      exact ⟨_, _, rfl, rfl, rfl, rfl⟩
    · cases h
      exact ⟨_, _, rfl, rfl, rfl, rfl⟩

/-! ### Whole runs -/

/-- The sending halves of all ordered streams. -/
structure Sending (aead : Aead) (s : OrderedCarriers) : Prop where
  sized : s.Sized
  written : ∀ c, c.isOrdered = true → Written aead s c

theorem Sized.setTask {t : SendTask} (h : s.Sized)
    (hfits : t.message.payload.length + (headerLen + aeadTagLen) ≤ s.limits.own) :
    Sized (s.setTask id (some t)) := by
  intro j u hj
  by_cases hne : j = id
  · subst hne
    simp only [OrderedCarriers.setTask, Function.update_self, Option.some.injEq] at hj
    subst hj
    exact hfits
  · simp only [OrderedCarriers.setTask, Function.update_of_ne hne] at hj
    exact h j u hj

theorem Sized.clearTask (h : s.Sized) : Sized (s.setTask id none) := by
  intro j u hj
  by_cases hne : j = id
  · subst hne
    simp [OrderedCarriers.setTask] at hj
  · simp only [OrderedCarriers.setTask, Function.update_of_ne hne] at hj
    exact h j u hj

/-- Calling `send_native`. -/
theorem Sending.call (h : Sending aead s) (hnone : s.tasks id = none) (d : Channel)
    (m : Outgoing) : Sending aead (s.call id d m) where
  sized := by
    unfold OrderedCarriers.call
    split
    · exact h.sized
    · rename_i hok
      exact h.sized.setTask (checkLen_ok.mp hok)
  written := fun c hc => (h.written c hc).aside (.call hnone d m)

theorem Sending.acquire (h : Sending aead s)
    (htask : s.tasks id = some ⟨d, m, .locking⟩) (hfree : (s.carriers d).holder = none) :
    Sending aead (s.acquire aead id d m) := by
  have hfits := h.sized id _ htask
  constructor
  case sized =>
    rw [acquire_eq m hfits]
    exact h.sized.setTask hfits
  case written =>
    intro c hc
    by_cases hd : d = c
    · subst hd
      exact (h.written d hc).acquire hfree hfits
    · rw [acquire_eq m hfits]
      refine (h.written c hc).aside (.elsewhere hd htask rfl rfl ?_ ?_ (fun h => h) rfl ?_)
      · exact Function.update_of_ne (Ne.symm hd) _ _
      · exact Function.update_of_ne (Ne.symm hd) _ _
      · rintro _ ⟨⟩
        rfl

theorem Sending.write (h : Sending aead s)
    {written : ℕ} (htask : s.tasks id = some ⟨d, m, .writing bytes written⟩)
    (hopen : s.closed = false) (n : ℕ) : Sending aead (s.write id d m bytes written n) := by
  have hfits := h.sized id _ htask
  constructor
  case sized =>
    unfold OrderedCarriers.write
    split
    · exact h.sized.clearTask
    · exact h.sized.setTask hfits
  case written =>
    intro c hc
    by_cases hd : d = c
    · subst hd
      exact (h.written d hc).write htask hopen n
    · refine (h.written c hc).aside ?_
      unfold OrderedCarriers.write
      split
      · refine .elsewhere hd htask rfl rfl rfl ?_ (fun h => h) rfl nofun
        simp [release, OrderedCarriers.setTask, setCarrier, Function.update_of_ne (Ne.symm hd)]
      · refine .elsewhere hd htask rfl rfl rfl ?_ (fun h => h) rfl ?_
        · simp [OrderedCarriers.setTask, setCarrier, Function.update_of_ne (Ne.symm hd)]
        · rintro _ ⟨⟩
          rfl

theorem Sending.interrupt (h : Sending aead s) {t : SendTask} (htask : s.tasks id = some t) :
    Sending aead (s.interrupt id t) := by
  obtain ⟨d, m, phase⟩ := t
  cases phase with
  | locking =>
    constructor
    case sized => exact h.sized.clearTask
    case written =>
      intro c hc
      refine (h.written c hc).aside ⟨rfl, rfl, rfl, rfl, rfl, fun h => h, ?_⟩
      intro j m' bytes written
      refine writing_update c m' bytes written j ?_ ?_
      · intro _ _ _ hw
        rw [htask] at hw
        cases hw
      · intro _ _ _ hw
        cases hw
  | writing bytes written =>
    constructor
    case sized => exact h.sized.clearTask
    case written =>
      intro c hc
      by_cases hd : d = c
      · subst hd
        exact (h.written d hc).dropped htask
      · refine (h.written c hc).aside (.elsewhere hd htask rfl rfl rfl ?_ nofun rfl nofun)
        simp [OrderedCarriers.interrupt, release, OrderedCarriers.setTask, setCarrier,
          Function.update_of_ne (Ne.symm hd)]

theorem Sending.aside (h : Sending aead s) (htasks : s'.tasks = s.tasks)
    (hlimits : s'.limits = s.limits) (ha : ∀ c, c.isOrdered = true → Aside s s' c) :
    Sending aead s' where
  sized := by
    intro j t hj
    rw [htasks] at hj
    rw [hlimits]
    exact h.sized j t hj
  written := fun c hc => (h.written c hc).aside (ha c hc)

theorem Sending.read (h : Sending aead s) {tail : StreamTail}
    (hread : s.readOrdered aead d tail = some s') : Sending aead s' := by
  obtain ⟨o, k, rfl, hholder, hlog, hstream⟩ := readOrdered_turn hread
  exact h.aside rfl rfl fun c _ => .reader hholder hlog hstream

theorem Sending.start (aead : Aead) (limits : RecordLimits) : Sending aead (start limits) where
  sized := nofun
  written := fun c _ => .start aead limits c

theorem Sending.step (h : Sending aead s) {event : Event}
    (hs : step aead s event = some s') : Sending aead s' := by
  cases event with
  | call id d m =>
    obtain ⟨hcall, rfl⟩ := Runs.some_of_guard hs
    exact h.call hcall.1 d m
  | lock id =>
    simp only [OrderedCarriers.step] at hs
    split at hs
    · rename_i d m htask
      obtain ⟨hfree, rfl⟩ := Runs.some_of_guard hs
      exact h.acquire htask hfree
    · cases hs
  | write id n =>
    simp only [OrderedCarriers.step] at hs
    split at hs
    · rename_i d m bytes written htask
      obtain ⟨hopen, rfl⟩ := Runs.some_of_guard hs
      exact h.write htask hopen.1 n
    · cases hs
  | interrupt id =>
    simp only [OrderedCarriers.step] at hs
    split at hs
    · rename_i t htask
      cases hs
      exact h.interrupt htask
    · cases hs
  | close =>
    cases hs
    exact h.aside rfl rfl fun c _ => ⟨rfl, rfl, rfl, rfl, rfl, nofun, fun _ _ _ _ => Iff.rfl⟩
  | arrive d n =>
    obtain ⟨-, rfl⟩ := Runs.some_of_guard hs
    exact h.aside rfl rfl fun c _ => .reader rfl rfl rfl
  | read d failure =>
    simp only [OrderedCarriers.step] at hs
    split at hs
    · cases failure with
      | none => exact h.read hs
      | some error =>
        dsimp only at hs
        split at hs
        · exact h.read hs
        · cases hs
    · cases hs
  | abort d =>
    cases hs
    exact h.aside rfl rfl fun c _ => .reader rfl rfl rfl
  | sealOther d m =>
    obtain ⟨hd, rfl⟩ := Runs.some_of_guard hs
    refine h.aside rfl rfl fun c hc =>
      ⟨rfl, ?_, rfl, rfl, rfl, fun h => h, fun _ _ _ _ => Iff.rfl⟩
    -- an ordered channel is not the one that was sealed on
    have hne : c ≠ d := by
      rintro rfl
      rw [hc] at hd
      cases hd
    exact Function.update_of_ne hne _ _
  | openOther d record =>
    obtain ⟨-, rfl⟩ := Runs.some_of_guard hs
    exact h.aside rfl rfl fun c _ =>
      ⟨rfl, rfl, rfl, rfl, rfl, fun h => h, fun _ _ _ _ => Iff.rfl⟩

theorem sending (hr : Reach (step aead) (start limits) s) : Sending aead s :=
  hr.invariant (.start aead limits) fun _ _ _ h hs => h.step hs

end OrderedCarriers

end NebulaDesk
