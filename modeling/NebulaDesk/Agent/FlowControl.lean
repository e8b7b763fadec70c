/-
Flow control of file transfer.

Every transfer between two engines whose messages each arrive once, in any order,
keeps `Flow`.  So what a sender puts on the wire is in order and inside the
receiver's allowance, the receiver's count of unacknowledged bytes cannot
underflow, and a transfer with nothing in flight can always go on.
-/
import NebulaDesk.Agent.Integrity
import NebulaDesk.Agent.TransferFlow

namespace NebulaDesk

open FileTransfers Runs

/-- What flow control guarantees of one transfer from `d`. -/
structure Regulated (l : Duplex) (d : Bool) (offer : FileOffer) : Prop where
  /-- Chunks are contiguous, at most a chunk's worth, inside the offered size and
  the last allowance, and empty only for an empty file. -/
  emitted : Each (InOrder offer) (l.view d offer.transferId).emitted
  /-- Whatever chunk is noted next, the last acknowledged count is not above the
  received one. -/
  acked : ∀ r, (l.peer (!d)).1.receiving[offer.transferId]? = some r →
    ∀ start stop, r.acked ≤ (r.ranges.add start stop).contiguous
  /-- With no chunk and no acknowledgement in flight, a transfer that the receiver
  has accepted and not given up has room. -/
  ready : ∀ s, (l.peer d).1.sending[offer.transferId]? = some s →
    (l.view d offer.transferId).chunks = [] → (l.view d offer.transferId).acks = [] →
    ((l.peer (!d)).1.receiving[offer.transferId]? ≠ none ∨
      (l.view d offer.transferId).published ≠ []) →
    s.offset < s.allowed ∧ s.ready = true

/-- **Flow control neither overruns nor deadlocks.** -/
theorem transfers_regulated {blake3 : List UInt8 → Text} {p : Bool → Platform} {env : Bool → Env}
    {fs : Bool → FileSystem} {folder : Bool → PathBuf} {permitted : Bool → Bool} {l : Duplex}
    (hblake : ∀ e, (p e).blake3 = blake3) (huuid : ∀ e, Function.Injective (env e).uuids)
    (hleaves : ∀ e, (env e).LeavesFiles (folder e))
    (hr : Reach (Duplex.step p false) (Duplex.start env fs folder permitted) l) :
    ∀ d o b, (o, b) ∈ l.hashed d → Regulated l d o := by
  have hflow := transfers_of_reach hleaves hblake huuid (fun _ _ hst => Flow.start hst)
    (fun _ _ _ hmax h hst => h.step hmax hst) hr
  intro d o b hob
  have h := hflow d o b hob
  refine ⟨h.emitted, fun r hrecv => h.acked_le hrecv, fun s hs hchunks hacks hheld => ?_⟩
  obtain ⟨hfin, hroom⟩ := h.ready hs hheld hchunks hacks
  refine ⟨hroom, ?_⟩
  simp [Sending.ready, hfin, hroom]

/-- A file of one byte, accepted and allowed: nothing is in flight, and there is room. -/
theorem transfers_regulated_one_byte :
    let p : Bool → Platform := fun _ => .sample .posix false
    let calls : List Call := [⟨false, .send 0 (.sample [7]), false⟩,
      ⟨true, .offer 0 (.sample [7]), false⟩, ⟨false, .ack 0 ⟨1, 0, fileWindow⟩, false⟩]
    ∃ l, tryRun (Duplex.step p false) (.sample fun _ => .quiet) calls = some l ∧
      l.flight false = [] ∧ l.flight true = [] ∧ Regulated l false (.sample [7]) := by
  intro p calls
  have hrun : (tryRun (Duplex.step p false) (.sample fun _ => .quiet) calls).any
      (fun l => l.flight false = [] ∧ l.flight true = [] ∧
        (FileOffer.sample [7], [7]) ∈ l.hashed false) = true := by decide +kernel
  obtain ⟨l, hl, hc⟩ := (Option.any_eq_true _ _).mp hrun
  obtain ⟨hout, hin, hob⟩ := of_decide_eq_true hc
  refine ⟨l, hl, hout, hin, ?_⟩
  exact transfers_regulated (fun _ => rfl) (fun e => Env.sample_uuids_injective _)
    quiet_leavesFiles (reach_of_tryRun .init hl) false _ _ hob

/-- The chunk of an empty file is empty; and a file just offered has no chunk and
no acknowledgement in flight, and no room. -/
theorem offered_file_waits :
    let p : Bool → Platform := fun _ => .sample .posix false
    let empty : List Call := [⟨false, .send 0 (.sample []), false⟩,
      ⟨true, .offer 0 (.sample []), false⟩, ⟨false, .ack 0 ⟨1, 0, fileWindow⟩, false⟩,
      ⟨false, .pump 0 1 [], false⟩]
    let offered : List Call := [⟨false, .send 0 (.sample [7]), false⟩]
    (tryRun (Duplex.step p false) (.sample fun _ => .quiet) empty).any (fun l =>
        .chunk ⟨1, 0⟩ [] ∈ l.flight false) = true ∧
      (tryRun (Duplex.step p false) (.sample fun _ => .quiet) offered).any (fun l =>
        l.flight true = [] ∧ l.flight false = [.offer (.sample [7])] ∧
          ((l.peer false).1.sending[1]?.any fun s => s.offset = s.allowed) = true) = true := by
  decide +kernel

end NebulaDesk
