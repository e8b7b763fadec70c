/-
Which sends `expire_stalled` gives up (`nebula-agent/src/files.rs`).

A send waits for the peer once all of it is out, or while its offset is its allowance; otherwise it
waits for `pump`, which takes one ready send at a time.  The timer of a send is set by what moves
it: an allowance raised, a chunk taken.

* **`timer_of_move`** — the timer is set exactly by these;
* **`blamed_waited_iff`** — an expiry blames no send that waited for `pump`, exactly if no ready send
  has run out of time;
* **`starved_send_blamed`** — a run in which a send is blamed that was never picked.
-/
import NebulaDesk.Agent.Integrity

namespace NebulaDesk

open Runs
open Std (ExtTreeMap)

/-- All is sent, or all that is allowed. -/
def Sending.waiting (s : Sending) : Bool := s.finished || s.offset = s.allowed

/-- What moves when a send makes progress. -/
def Sending.position (s : Sending) : ℕ × ℕ × Bool := (s.offset, s.allowed, s.finished)

theorem Sending.waiting_of_position {s s' : Sending} (h : s'.position = s.position) :
    s'.waiting = s.waiting := by
  simp only [position, Prod.mk.injEq] at h
  obtain ⟨hoffset, hallowed, hfinished⟩ := h
  rw [waiting, waiting, hoffset, hallowed, hfinished]

theorem Sending.ready_eq {s : Sending} (h : s.offset ≤ s.allowed) : s.ready = !s.waiting := by
  have hlt : s.offset < s.allowed ↔ ¬ s.offset = s.allowed := by omega
  simp only [ready, waiting, hlt, Bool.not_or, decide_not]

namespace FileTransfers

variable {now : ℕ}

/-- What an expiry leaves of a send. -/
def spared (now : ℕ) (s : Option Sending) : Option Sending :=
  s.filter fun s => !expired now s.lastProgress

theorem getElem?_expireSend (now : ℕ) (ft : FileTransfers) (id a : ℕ) :
    (expireSend now ft id).sending[a]? =
      if id = a then spared now ft.sending[a]? else ft.sending[a]? := by
  unfold expireSend
  by_cases ha : id = a
  · subst ha
    rw [if_pos rfl]
    cases hs : ft.sending[id]? with
    | none => simpa [spared] using hs
    | some s =>
      by_cases hexpired : expired now s.lastProgress = true
      · simp [spared, hexpired, dropSending, Option.filter_some]
      · simp [spared, hexpired, hs, Option.filter_some]
  · rw [if_neg ha]
    cases hs : ft.sending[id]? with
    | none => rfl
    | some s =>
      dsimp only
      split
      · exact (getElem?_sending_erase ft id a).trans (if_neg ha)
      · rfl

theorem getElem?_expireSends (now : ℕ) (ft : FileTransfers) (a : ℕ) :
    (ft.expireSends now).sending[a]? = spared now ft.sending[a]? := by
  have hfold : ∀ (ids : List ℕ) (ft : FileTransfers),
      (ids.foldl (expireSend now) ft).sending[a]? =
        if a ∈ ids then spared now ft.sending[a]? else ft.sending[a]? := by
    intro ids
    induction ids with
    | nil => exact fun ft => rfl
    | cons id ids ih =>
      intro ft
      rw [List.foldl_cons, ih, getElem?_expireSend]
      by_cases ha : id = a
      · subst ha
        -- dropping it again changes nothing
        have htwice : spared now (spared now ft.sending[id]?) = spared now ft.sending[id]? := by
          simp [spared, Option.filter_filter]
        simp [htwice]
      · simp [ha, Ne.symm ha]
  rw [expireSends, hfold]
  split
  · rfl
  · next hkey =>
    have hnone : ft.sending[a]? = none := by
      refine ExtTreeMap.getElem?_eq_none ?_
      rwa [ExtTreeMap.mem_keys] at hkey
    rw [hnone]
    rfl

theorem expireReceives_sending (now : ℕ) (ft : FileTransfers) (w : World) :
    (ft.expireReceives now w).1.sending = ft.sending := by
  have hone : ∀ (st : FileTransfers × World) (id : ℕ),
      (expireReceive now st id).1.sending = st.1.sending := by
    intro st id
    unfold expireReceive
    split
    · rfl
    · split
      · exact (failReceive_receives st.1 id "incomplete file receive timed out" st.2).1.sending
      · rfl
  have hfold : ∀ (ids : List ℕ) (st : FileTransfers × World),
      (ids.foldl (expireReceive now) st).1.sending = st.1.sending := by
    intro ids
    induction ids with
    | nil => exact fun st => rfl
    | cons id ids ih => exact fun st => (ih _).trans (hone st id)
  exact hfold _ (ft, w)

/-- **What an expiry leaves.** -/
theorem getElem?_expireStalled (now : ℕ) (ft : FileTransfers) (w : World) (a : ℕ) :
    (ft.expireStalled now w).1.sending[a]? = spared now ft.sending[a]? := by
  rw [expireStalled, expireReceives_sending, getElem?_expireSends]

/-! ### What sets a timer -/

/-- Every send is as it was, or its timer is set and it has just been offered or has moved. -/
structure Timed (now : ℕ) (ft ft' : FileTransfers) : Prop where
  sends : ∀ id s', ft'.sending[id]? = some s' →
    ft.sending[id]? = some s' ∨
      s'.lastProgress = now ∧
        (id = ft.nextId ∧ ft'.nextId = ft.nextId + 1 ∧ s'.offset = s'.allowed ∨
          ∃ s, ft.sending[id]? = some s ∧ s'.position ≠ s.position ∧
            (s.offset ≤ s.allowed → s'.offset ≤ s'.allowed))
  nextId : ft.nextId ≤ ft'.nextId

theorem Timed.same {ft ft' : FileTransfers} (hsending : ft'.sending = ft.sending)
    (hnext : ft'.nextId = ft.nextId) : Timed now ft ft' :=
  ⟨fun _ _ hs => .inl (hsending ▸ hs), hnext.ge⟩

theorem Timed.of_sends {ft ft' : FileTransfers} {id : ℕ} {after : Option Sending}
    (hsends : Sends ft ft' id after) (hnext : ft'.nextId = ft.nextId)
    (hmoved : ∀ s' ∈ after, ∃ s, ft.sending[id]? = some s ∧
      (s' = s ∨ s'.lastProgress = now ∧ s'.position ≠ s.position ∧
        (s.offset ≤ s.allowed → s'.offset ≤ s'.allowed))) : Timed now ft ft' := by
  refine ⟨fun a s' hs => ?_, hnext.ge⟩
  rw [hsends.sending] at hs
  by_cases ha : id = a
  · subst ha
    rw [if_pos rfl] at hs
    obtain ⟨s, hold, rfl | ⟨htimer, hmove, hwithin⟩⟩ := hmoved s' hs
    · exact .inl hold
    · exact .inr ⟨htimer, .inr ⟨s, hold, hmove, hwithin⟩⟩
  · rw [if_neg ha] at hs
    exact .inl hs

theorem sendFile_timed (blake3 : List UInt8 → Text) (ft : FileTransfers) (source : Source) :
    Timed now ft (ft.sendFile blake3 now source).2 := by
  unfold sendFile
  split
  · exact ⟨fun id s' hs => .inl hs, Nat.le_succ _⟩
  · next offer hoffer =>
    obtain ⟨hid, -⟩ := prepareOffer_ok hoffer
    refine ⟨fun id s' hs => ?_, Nat.le_succ _⟩
    have hs : (ft.sending.insert offer.transferId
        ⟨0, offer.size, 0, false, now, offer.name⟩)[id]? = some s' := hs
    rw [getElem?_sending_insert] at hs
    split at hs
    · next heq =>
      cases hs
      exact .inr ⟨rfl, .inl ⟨heq.symm.trans hid, rfl, rfl⟩⟩
    · exact .inl hs

theorem pump_timed (ft : FileTransfers) (pick : ℕ) (reads : List (Except Fault (List UInt8))) :
    Timed now ft (ft.pump now pick reads).2 := by
  obtain ⟨hcase, hnext, -⟩ := pump_cases ft now pick reads
  generalize ft.pump now pick reads = result at hcase hnext
  obtain ⟨out, ft'⟩ := result
  cases hcase with
  | idle => exact .same rfl rfl
  | empty hs hready hsize hft =>
    refine .of_sends hft hnext fun s' hs' => ⟨_, hs, .inr ?_⟩
    cases hs'
    refine ⟨rfl, fun hsame => ?_, id⟩
    -- it had not been finished
    simp only [Sending.position, Prod.mk.injEq, true_and] at hsame
    simp [Sending.ready, ← hsame] at hready
  | @sent s data _ hs hready hsize hne hlen hft =>
    refine .of_sends hft hnext fun s' hs' => ⟨_, hs, .inr ?_⟩
    cases hs'
    have hpos : 0 < data.length := List.length_pos_iff.mpr hne
    refine ⟨rfl, fun hsame => ?_, fun hle => ?_⟩
    · have hoffset : s.offset + data.length = s.offset := congrArg Prod.fst hsame
      omega
    · show s.offset + data.length ≤ s.allowed
      unfold wanted at hlen
      omega
  | dropped hft => exact .of_sends hft hnext fun s' hs' => by cases hs'

theorem onAck_timed (ft : FileTransfers) (ack : FileAck) : Timed now ft (ft.onAck now ack) := by
  obtain ⟨hsends, hnext, -⟩ := onAck_cases ft now ack
  refine .of_sends hsends hnext fun s' hs' => ?_
  obtain ⟨s, hs, hacked⟩ := Option.bind_eq_some_iff.mp hs'
  refine ⟨s, hs, ?_⟩
  unfold acked ackOutcome at hacked
  split at hacked
  · next s₁ hout =>
    cases hacked
    split at hout
    · cases hout
    split at hout
    · cases hout
      exact .inl rfl
    split at hout
    · cases hout
    split at hout
    · next hmore =>
      -- the allowance is raised
      cases hout
      refine .inr ⟨rfl, fun hsame => ?_, fun hle => ?_⟩
      · have hallowed : saturatingAdd ack.received ack.window = s.allowed :=
          congrArg (fun position => position.2.1) hsame
        omega
      · show s.offset ≤ saturatingAdd ack.received ack.window
        omega
    · cases hout
      exact .inl rfl
  · cases hacked

theorem failReceive_timed (ft : FileTransfers) (id : ℕ) (error : String) (w : World) :
    Timed now ft (ft.failReceive id error w).1 :=
  have h := (failReceive_receives ft id error w).1
  .same h.sending h.nextId

theorem finish_sending (p : Platform) (ft : FileTransfers) (id : ℕ) (w : World) :
    (ft.finish p id w).1.2.sending = ft.sending ∧ (ft.finish p id w).1.2.nextId = ft.nextId := by
  unfold finish
  split
  · exact ⟨rfl, rfl⟩
  · dsimp only
    split <;> exact ⟨rfl, rfl⟩

theorem onChunk_timed (p : Platform) (ft : FileTransfers) (header : FileChunkHeader)
    (data : List UInt8) (w : World) : Timed now ft (ft.onChunk p now header data w).1.2 := by
  unfold onChunk
  split
  · exact .same rfl rfl
  · next r _ =>
    split
    · exact failReceive_timed ft _ _ w
    · split
      · exact failReceive_timed ft _ _ _
      · next w' _ =>
        dsimp only
        split
        · have hfinish := finish_sending p (ft.progress header.transferId
            (note r now header.offset (saturatingAdd header.offset data.length)))
            header.transferId w'
          split
          · next hout =>
            rw [hout] at hfinish
            exact .same hfinish.1 hfinish.2
          · next hout =>
            rw [hout] at hfinish
            exact .same hfinish.1 hfinish.2
        · exact .same rfl rfl

end FileTransfers

/-- When a call is made. -/
def FileOp.now : FileOp → ℕ
  | .send now _ | .pump now _ _ | .ack now _ | .offer now _ | .chunk now _ _ | .expire now => now

namespace FileTransfers

/-- **What a call does to the timers.** -/
theorem timer_of_move (p : Platform) (st : FileTransfers × World) (op : FileOp) :
    Timed op.now st.1 (apply p st op).2.1 := by
  obtain ⟨ft, w⟩ := st
  cases op with
  | send now source => exact sendFile_timed p.blake3 ft source
  | pump now pick reads => exact pump_timed ft pick reads
  | ack now ack => exact onAck_timed ft ack
  | offer now offer =>
    have hanswers := (onOffer_cases p ft now offer w).1.answers
    exact .same hanswers.sending hanswers.nextId
  | chunk now header data => exact onChunk_timed p ft header data w
  | expire now =>
    refine ⟨fun id s' hs => .inl ?_, (expireStalled_expires ft now w).nextId.ge⟩
    have hs : (ft.expireStalled now w).1.sending[id]? = some s' := hs
    rw [getElem?_expireStalled] at hs
    exact (Option.filter_eq_some_iff.mp hs).1

end FileTransfers

/-! ### Runs -/

/-- The file engine, and for every send whether it has been waiting for the peer ever since it last
made progress. -/
structure Watched where
  state : FileTransfers × World
  waited : ℕ → Bool

namespace Watched

open FileTransfers

variable {w : Watched}

def start (env : Env) (fs : FileSystem) (downloads : PathBuf) (enabled : Bool) : Watched :=
  ⟨(.new downloads enabled, .start env fs), fun _ => false⟩

/-- Whether a send that was `before` is waiting `after`, and was all the time if it has not moved. -/
def follow (waited : Bool) (before after : Option Sending) : Bool :=
  after.any fun s =>
    s.waiting && (waited || before.map Sending.position != some s.position)

def step (p : Platform) (w : Watched) (op : FileOp) : Watched where
  state := (apply p w.state op).2
  waited id := follow (w.waited id) w.state.1.sending[id]? (apply p w.state op).2.1.sending[id]?

/-- The send `id` is given up for lack of progress of the peer. -/
def Blamed (now : ℕ) (w : Watched) (id : ℕ) : Prop :=
  w.state.1.sending[id]? ≠ none ∧ (w.state.1.expireStalled now w.state.2).1.sending[id]? = none

structure Inv (w : Watched) : Prop where
  known : ∀ (id : ℕ) (s : Sending), w.state.1.sending[id]? = some s → id < w.state.1.nextId
  within : ∀ (id : ℕ) (s : Sending), w.state.1.sending[id]? = some s → s.offset ≤ s.allowed
  waited : ∀ (id : ℕ) (s : Sending), w.state.1.sending[id]? = some s → w.waited id = s.waiting

theorem inv_start (env : Env) (fs : FileSystem) (downloads : PathBuf) (enabled : Bool) :
    (start env fs downloads enabled).Inv := by
  have hnone : ∀ (id : ℕ) (s : Sending),
      (start env fs downloads enabled).state.1.sending[id]? ≠ some s := by
    intro id s hs
    rw [show (start env fs downloads enabled).state.1.sending[id]? = none from
      ExtTreeMap.getElem?_empty] at hs
    cases hs
  exact ⟨fun id s hs => absurd hs (hnone id s), fun id s hs => absurd hs (hnone id s),
    fun id s hs => absurd hs (hnone id s)⟩

theorem follow_eq {waited : Bool} {before : Option Sending} {s : Sending}
    (h : ∀ s₀, before = some s₀ → waited = s₀.waiting) : follow waited before (some s) = s.waiting := by
  unfold follow
  rw [Option.any_some]
  by_cases hmove : before.map Sending.position = some s.position
  · obtain ⟨s₀, hs₀, hsame⟩ := Option.map_eq_some_iff.mp hmove
    rw [h s₀ hs₀, Sending.waiting_of_position hsame.symm]
    cases s₀.waiting <;> rfl
  · simp [hmove]

theorem Inv.step (h : w.Inv) (p : Platform) (op : FileOp) : (w.step p op).Inv := by
  obtain ⟨hsends, hnext⟩ := timer_of_move p w.state op
  refine ⟨fun id s hs => ?_, fun id s hs => ?_, fun id s hs => ?_⟩
  · rcases hsends id s hs with hold | ⟨-, ⟨rfl, hgrown, -⟩ | ⟨s₀, hold, -⟩⟩
    · exact (h.known id s hold).trans_le hnext
    · show w.state.1.nextId < (apply p w.state op).2.1.nextId
      omega
    · exact (h.known id s₀ hold).trans_le hnext
  · rcases hsends id s hs with hold | ⟨-, ⟨-, -, hnone⟩ | ⟨s₀, hold, -, hwithin⟩⟩
    · exact h.within id s hold
    · exact hnone.le
    · exact hwithin (h.within id s₀ hold)
  · show follow (w.waited id) w.state.1.sending[id]? (apply p w.state op).2.1.sending[id]? = _
    rw [show (apply p w.state op).2.1.sending[id]? = some s from hs]
    exact follow_eq fun s₀ hs₀ => h.waited id s₀ hs₀

theorem inv_run (p : Platform) (env : Env) (fs : FileSystem) (downloads : PathBuf)
    (enabled : Bool) (ops : List FileOp) : (run (step p) (start env fs downloads enabled) ops).Inv :=
  run_invariant (fun _ op hinv => hinv.step p op) (inv_start env fs downloads enabled) ops

theorem blamed_iff {now id : ℕ} : w.Blamed now id ↔
    ∃ s, w.state.1.sending[id]? = some s ∧ expired now s.lastProgress = true := by
  unfold Blamed
  rw [getElem?_expireStalled, spared]
  cases w.state.1.sending[id]? with
  | none => simp
  | some s => simp [Option.filter_some]

/-- After any calls, an expiry gives up only sends that have been waiting for the peer since they
last made progress, exactly if every send whose time is up is one `pump` could not pick. -/
theorem blamed_waited_iff (p : Platform) (env : Env) (fs : FileSystem) (downloads : PathBuf)
    (enabled : Bool) (ops : List FileOp) (now : ℕ) :
    (∀ id, (run (step p) (start env fs downloads enabled) ops).Blamed now id →
        (run (step p) (start env fs downloads enabled) ops).waited id = true) ↔
      ∀ (id : ℕ) (s : Sending),
        (run (step p) (start env fs downloads enabled) ops).state.1.sending[id]? = some s →
          expired now s.lastProgress = true → s.ready = false := by
  have hinv := inv_run p env fs downloads enabled ops
  generalize run (step p) (start env fs downloads enabled) ops = w at hinv
  constructor
  · intro hwaited id s hs hexpired
    rw [Sending.ready_eq (hinv.within id s hs), ← hinv.waited id s hs,
      hwaited id (blamed_iff.mpr ⟨s, hs, hexpired⟩)]
    rfl
  · intro hready id hblamed
    obtain ⟨s, hs, hexpired⟩ := blamed_iff.mp hblamed
    have hnot := hready id s hs hexpired
    rw [Sending.ready_eq (hinv.within id s hs)] at hnot
    rw [hinv.waited id s hs]
    simpa using hnot

/-- Two files of three bytes are allowed at once, and the first is picked each time.  After two
minutes the second is given up, without having been picked. -/
theorem starved_send_blamed :
    let ops : List FileOp := [.send 0 (.sample [1, 2, 3]), .send 0 (.sample [4, 5, 6]),
      .ack 0 ⟨1, 0, fileWindow⟩, .ack 0 ⟨2, 0, fileWindow⟩,
      .pump 60000 1 [.ok [1], .ok []], .pump 119000 1 [.ok [2], .ok []]]
    let w := run (step (.sample .posix false))
      (start (.sample fun _ => .quiet) .blank .sample true) ops
    (w.state.1.sending[2]?.any fun s => s.ready && expired 120000 s.lastProgress) = true ∧
      w.waited 2 = false ∧ w.Blamed 120000 2 ∧
      (w.state.1.expireStalled 120000 w.state.2).1.updates.any
        (fun u => u.id = 2 && u.error = some "file send timed out without peer progress") =
          true := by
  intro ops w
  have hready : (w.state.1.sending[2]?.any fun s => s.ready && expired 120000 s.lastProgress) =
      true := by decide +kernel
  refine ⟨hready, by decide +kernel, ?_, by decide +kernel⟩
  obtain ⟨s, hs, hexpired⟩ := (Option.any_eq_true _ _).mp hready
  exact blamed_iff.mpr ⟨s, hs, (Bool.and_eq_true_iff.mp hexpired).2⟩

end Watched

end NebulaDesk
