/-
The steps of a relay (`nebula-relay/src/rendezvous.rs`).

`Steps` says once what a step can do, guards included.
-/
import NebulaDesk.Relay.Rendezvous

namespace NebulaDesk

namespace Relay

variable {codec : PairCodec} {key : PairKey} {r r' : Relay} {a : RelayEvent} {c : ℕ}

inductive Steps (codec : PairCodec) (key : PairKey) (r : Relay) : RelayEvent → Relay → Prop
  | mint (now : UInt64) (session : SessionId) (side : Side) :
      Steps codec key r (.mint now session side)
        { r with minted := r.minted ++ [⟨session, side, now + tokenTtl⟩] }
  | letIn {c : ℕ} {token : String} {now : UInt64} {t : PairToken} (htask : r.tasks c = .hello)
      (hmac : r.unforged codec key token = true) (hverify : key.verify codec now token = .ok t) :
      Steps codec key r (.present c token now)
        (setTask { r with presented := r.presented ++ [⟨c, token, now⟩] } c (.joining t))
  | refuse {c : ℕ} {token : String} {now : UInt64} {e : TokenError} (htask : r.tasks c = .hello) :
      Steps codec key r (.present c token now)
        (setTask { r with presented := r.presented ++ [⟨c, token, now⟩] } c (.refused e))
  | splice {c : ℕ} {t : PairToken} {peer : Waiting} (htask : r.tasks c = .joining t)
      (hslot : r.waiting t.session = some peer) (hside : peer.side = t.side.peer) :
      Steps codec key r (.join c)
        { (r.setSlot t.session none) with
          tasks := Function.update
            (Function.update r.tasks peer.connection (r.tasks peer.connection).notify) c
            (.returned t .spliced)
          splices := r.splices ++ [.join t.session t.side c peer.connection] }
  | duplicate {c : ℕ} {t : PairToken} (htask : r.tasks c = .joining t) :
      Steps codec key r (.join c) (r.setTask c (.returned t .duplicate))
  | park {c : ℕ} {t : PairToken} (htask : r.tasks c = .joining t)
      (hslot : r.waiting t.session = none) :
      Steps codec key r (.join c)
        ((r.setSlot t.session (some ⟨t.side, c⟩)).setTask c (.waiting t false))
  | wake {c : ℕ} {t : PairToken} (htask : r.tasks c = .waiting t true) :
      Steps codec key r (.wake c) (r.setTask c (.returned t .spliced))
  | orphan {c : ℕ} {t : PairToken} (htask : r.tasks c = .waiting t false)
      (hslot : r.parks t.session c = false) :
      Steps codec key r (.orphan c) (r.setTask c (.leaving t .abandoned))
  | timeout {c : ℕ} {t : PairToken} (htask : r.tasks c = .waiting t false) :
      Steps codec key r (.timeout c) (r.setTask c (.leaving t .timedOut))
  | closed {c : ℕ} {t : PairToken} {ready : Bool} (htask : r.tasks c = .waiting t ready) :
      Steps codec key r (.closed c) (r.setTask c (.leaving t .abandoned))
  | vacate {c : ℕ} {t : PairToken} {outcome : Outcome} (htask : r.tasks c = .leaving t outcome)
      (hslot : r.waiting t.session = some ⟨t.side, c⟩) :
      Steps codec key r (.giveUp c)
        ((r.setSlot t.session none).setTask c (.returned t outcome))
  | leave {c : ℕ} {t : PairToken} {outcome : Outcome} (htask : r.tasks c = .leaving t outcome)
      (hslot : r.waiting t.session ≠ some ⟨t.side, c⟩) :
      Steps codec key r (.giveUp c) (r.setTask c (.returned t outcome))

theorem step_cases (h : r.step codec key a = some r') : Steps codec key r a r' := by
  cases a with
  | mint now session side =>
    cases h
    exact .mint now session side
  | present c token now =>
    simp only [step] at h
    split at h
    · next htask =>
      obtain ⟨hmac, rfl⟩ := Runs.some_of_guard h
      unfold present
      dsimp only
      split
      · next t hverify => exact .letIn htask hmac hverify
      · next e hverify => exact .refuse htask
    · cases h
  | join c =>
    simp only [step] at h
    split at h
    · next t htask =>
      cases h
      unfold join
      split
      · next peer hslot =>
        split
        · next hside => exact .splice htask hslot hside
        · exact .duplicate htask
      · next hslot => exact .park htask hslot
    · cases h
  | wake c =>
    simp only [step] at h
    split at h
    · next t htask =>
      cases h
      exact .wake htask
    · cases h
  | orphan c =>
    simp only [step] at h
    split at h
    · next t htask =>
      obtain ⟨hslot, rfl⟩ := Runs.some_of_unless h
      exact .orphan htask (Bool.not_eq_true _ ▸ hslot)
    · cases h
  | timeout c =>
    simp only [step] at h
    split at h
    · next t htask =>
      cases h
      exact .timeout htask
    · cases h
  | closed c =>
    simp only [step] at h
    split at h
    · next t ready htask =>
      cases h
      exact .closed htask
    · cases h
  | giveUp c =>
    simp only [step] at h
    split at h
    · next t outcome htask =>
      cases h
      unfold giveUp
      dsimp only
      split
      · next hslot => exact .vacate htask hslot
      · next hslot => exact .leave htask hslot
    · cases h

@[simp] theorem setTask_waiting (task : Task) : (r.setTask c task).waiting = r.waiting := rfl
@[simp] theorem setTask_self (task : Task) : (r.setTask c task).tasks c = task :=
  Function.update_self ..

theorem setTask_of_ne (task : Task) {d : ℕ} (h : d ≠ c) : (r.setTask c task).tasks d = r.tasks d :=
  Function.update_of_ne h ..

@[simp] theorem setSlot_self {session : SessionId} (slot : Option Waiting) :
    (r.setSlot session slot).waiting session = slot :=
  Function.update_self ..

theorem setSlot_of_ne {session other : SessionId} (slot : Option Waiting) (h : other ≠ session) :
    (r.setSlot session slot).waiting other = r.waiting other :=
  Function.update_of_ne h ..

end Relay

end NebulaDesk
