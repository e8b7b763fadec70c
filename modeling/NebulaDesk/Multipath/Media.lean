/-
Media is never replayed or rewound.

`LossyWindow.Holds` says which sequences a window has accepted, and
`LossyWindow.accept_iff` which ones it accepts next.  A run of the two ends is
observed through the media messages their inboxes take in (`mediaTaken`);
`media_taken_once` says of every such run which of them reach the application.
-/
import NebulaDesk.Multipath.Delivery

namespace NebulaDesk

namespace Multipath

open Bitmap Shared

namespace LossyWindow

variable {w : LossyWindow} {S : Set ℕ} {s : ℕ}

/-- The window has accepted exactly the sequences in `S`. -/
structure Holds (w : LossyWindow) (S : Set ℕ) : Prop where
  empty : w.highest = none → S = ∅
  highest : ∀ h, w.highest = some h → h ∈ S ∧ (∀ t ∈ S, t ≤ h) ∧ Tracks w.bits h S

theorem holds_new : (⟨none, 0⟩ : LossyWindow).Holds ∅ :=
  ⟨fun _ => rfl, fun h hh => by cases hh⟩

theorem accept_iff (hw : w.Holds S) : (w.accept s).1 = true ↔ s ∉ S ∧ ∀ t ∈ S, t < s + 64 := by
  unfold accept
  cases hh : w.highest with
  | none => simp [hw.empty hh]
  | some h =>
    obtain ⟨hmem, hle, hbits⟩ := hw.highest h hh
    dsimp only
    by_cases hgt : s > h
    · rw [if_pos hgt]
      refine iff_of_true rfl ⟨fun hs => ?_, fun t ht => ?_⟩
      · have := hle s hs
        omega
      · have := hle t ht
        omega
    rw [if_neg hgt]
    by_cases hfar : h - s ≥ 64
    · rw [if_pos (.inl hfar)]
      refine iff_of_false (by simp) fun hnew => ?_
      have := hnew.2 h hmem
      omega
    have htest := hbits.test (h - s) (by omega) (by omega)
    rw [show h - (h - s) = s by omega] at htest
    by_cases hin : s ∈ S
    · rw [if_pos (.inr fun hz => htest.mp hz hin)]
      exact iff_of_false (by simp) fun hnew => hnew.1 hin
    · rw [if_neg (by
        rw [not_or, not_ne_iff]
        exact ⟨hfar, htest.mpr hin⟩)]
      refine iff_of_true rfl ⟨hin, fun t ht => ?_⟩
      have := hle t ht
      omega

theorem Holds.advance (hw : w.Holds S) {h : ℕ} (hh : w.highest = some h) (hgt : s > h) :
    (⟨some s, if s - h ≥ 64 then 1 else w.bits <<< (s - h) ||| 1⟩ : LossyWindow).Holds
      (insert s S) := by
  obtain ⟨hmem, hle, hbits⟩ := hw.highest h hh
  refine ⟨fun hnone => (by cases hnone), fun h' hh' => ?_⟩
  cases hh'
  refine ⟨Set.mem_insert _ _, fun t ht => ?_, ?_⟩
  · rcases ht with rfl | ht
    · exact le_rfl
    · have := hle t ht
      omega
  · have hadvance := hbits.advance hle hgt
    by_cases hbig : s - h ≥ 64
    · rw [if_pos hbig] at hadvance ⊢
      simpa using hadvance
    · rw [if_neg hbig] at hadvance ⊢
      exact hadvance

theorem Holds.accept (hw : w.Holds S) :
    ((w.accept s).1 = true → (w.accept s).2.Holds (insert s S)) ∧
      ((w.accept s).1 = false → (w.accept s).2 = w) := by
  unfold LossyWindow.accept
  cases hh : w.highest with
  | none =>
    refine ⟨fun _ => ⟨fun hnone => (by cases hnone), fun h' hh' => ?_⟩, fun hf => by cases hf⟩
    cases hh'
    rw [hw.empty hh]
    refine ⟨Set.mem_insert _ _, fun t ht => ?_, ?_⟩
    · rcases ht with rfl | ht
      · exact le_rfl
      · exact ht.elim
    · rw [show insert s (∅ : Set ℕ) = {s} by simp]
      exact tracks_singleton s
  | some h =>
    obtain ⟨hmem, hle, hbits⟩ := hw.highest h hh
    dsimp only
    by_cases hgt : s > h
    · rw [if_pos hgt]
      exact ⟨fun _ => hw.advance hh hgt, fun hf => by cases hf⟩
    rw [if_neg hgt]
    split
    · exact ⟨fun hf => (by cases hf), fun _ => rfl⟩
    · refine ⟨fun _ => ⟨fun hnone => (by cases hnone), fun h' hh' => ?_⟩, fun hf => by cases hf⟩
      have hmark := hbits.mark (h - s) (by omega)
      rw [show h - (h - s) = s by omega] at hmark
      cases hh'
      refine ⟨Set.mem_insert_of_mem _ hmem, fun t ht => ?_, hmark⟩
      rcases ht with rfl | ht
      · omega
      · exact hle t ht

end LossyWindow

namespace End

/-- What an inbox remembers of the media it took in. -/
def SameMedia (t t' : End) : Prop :=
  t'.inbox.lossy = t.inbox.lossy ∧ t'.inbox.mediaEpoch = t.inbox.mediaEpoch

/-- Whether a media message passes the checks of the inbox. -/
def takes (channel : Channel) (epoch sequence : ℕ) (t : End) : Bool :=
  decide (t.inbox.mediaEpoch ≤ epoch) &&
    ((t.inbox.lossy (channel == .audio)).accept sequence).1

variable {t : End} {m : Incoming} {epoch sequence id : ℕ} {h : Host}

theorem receiveMedia_epoch :
    (t.receiveMedia epoch sequence m).inbox.mediaEpoch = max t.inbox.mediaEpoch epoch := by
  unfold receiveMedia
  split
  · omega
  · dsimp only
    split <;> split <;> dsimp only <;> omega

theorem receiveMedia_lossy :
    (t.receiveMedia epoch sequence m).inbox.lossy =
      if epoch < t.inbox.mediaEpoch then t.inbox.lossy
      else Function.update t.inbox.lossy (m.channel == .audio)
        ((t.inbox.lossy (m.channel == .audio)).accept sequence).2 := by
  unfold receiveMedia
  split
  · rfl
  · dsimp only
    split <;> split <;> rfl

theorem receiveMedia_output :
    (t.receiveMedia epoch sequence m).output =
      if t.takes m.channel epoch sequence && t.hasRoom then t.output ++ [.ok m] else t.output := by
  unfold receiveMedia takes
  by_cases hold : epoch < t.inbox.mediaEpoch
  · rw [if_pos hold]
    simp [Nat.not_le.mpr hold]
  · rw [if_neg hold]
    have hle : t.inbox.mediaEpoch ≤ epoch := Nat.le_of_not_lt hold
    dsimp only
    by_cases hnewer : epoch > t.inbox.mediaEpoch
    · rw [if_pos hnewer, apply_ite End.output]
      simp only [hle, decide_true, Bool.true_and]
      rfl
    · rw [if_neg hnewer, apply_ite End.output]
      simp only [hle, decide_true, Bool.true_and]
      rfl

theorem receiveReliable_media : SameMedia t (t.receiveReliable h id sequence m).1 := by
  unfold receiveReliable
  dsimp only
  split
  · exact ⟨rfl, rfl⟩
  split
  · exact ⟨rfl, rfl⟩
  split
  · split <;> exact ⟨rfl, rfl⟩
  · split <;> exact ⟨rfl, rfl⟩

theorem receiveInternal_media {kind : InternalKind} {nonce : ℕ} {bytes : List UInt8} :
    SameMedia t (t.receiveInternal h id kind nonce bytes).1 := by
  unfold receiveInternal
  split <;> exact ⟨rfl, rfl⟩

end End

/-! ### What a run takes in -/

/-- A media message taken in by the inbox of `receiver`. -/
structure MediaEvent where
  receiver : Bool
  channel : Channel
  epoch : ℕ
  sequence : ℕ
  /-- Whether it passed the checks of the inbox. -/
  fresh : Bool
  /-- Whether the queue to the application had room. -/
  room : Bool
  delivered : Bool
deriving DecidableEq, Repr

namespace System

/-- The media message that a step takes in, if it takes in one. -/
def mediaTaken (sys : System) (a : Action) (sys' : System) : Option MediaEvent :=
  match a with
  | .process e _ =>
    match (sys.ends e).events with
    | .received _ m :: _ =>
      match parse m with
      | .ok (.data sequence epoch _) =>
        if m.channel ∈ reliable then none
        else some
          { receiver := e
            channel := m.channel
            epoch := epoch
            sequence := sequence
            fresh := (sys.ends e).takes m.channel epoch sequence
            room := (sys.ends e).hasRoom
            delivered := decide ((sys.ends e).output.length < (sys'.ends e).output.length) }
      | _ => none
    | _ => none
  | _ => none

variable {g : Setting} {sys sys' : System} {e : Bool}

open End (SameMedia)

theorem sameMedia_commit {t : End} (h : SameMedia (sys.ends e) t) (b : Bool) :
    SameMedia (sys.ends b) ((sys.commit e t).ends b) := by
  by_cases hb : b = e
  · subst hb
    rw [commit_self]
    exact h
  · rw [show b = !e by cases b <;> cases e <;> first | rfl | exact absurd rfl hb, commit_other]
    exact ⟨rfl, rfl⟩

/-- What the end `e` remembers once it has taken in a media message. -/
structure Takes (sys sys' : System) (e : Bool) (channel : Channel) (epoch sequence : ℕ) : Prop where
  newest : (sys'.ends e).inbox.mediaEpoch = max (sys.ends e).inbox.mediaEpoch epoch
  windows : (sys'.ends e).inbox.lossy =
    if epoch < (sys.ends e).inbox.mediaEpoch then (sys.ends e).inbox.lossy
    else Function.update (sys.ends e).inbox.lossy (channel == .audio)
      (((sys.ends e).inbox.lossy (channel == .audio)).accept sequence).2
  other : SameMedia (sys.ends !e) (sys'.ends !e)
  delivered : (sys.ends e).output.length < (sys'.ends e).output.length ↔
    (sys.ends e).takes channel epoch sequence = true ∧ (sys.ends e).hasRoom = true

inductive MediaStep (sys : System) (a : Action) (sys' : System) : Prop
  | quiet (htaken : mediaTaken sys a sys' = none) (hsame : ∀ b, SameMedia (sys.ends b) (sys'.ends b))
  | taken (x : MediaEvent) (htaken : mediaTaken sys a sys' = some x) (hc : x.channel ∉ reliable)
      (htakes : Takes sys sys' x.receiver x.channel x.epoch x.sequence)
      (hfresh : x.fresh = (sys.ends x.receiver).takes x.channel x.epoch x.sequence)
      (hdelivered : x.delivered = true ↔ x.fresh = true ∧ x.room = true)

theorem mediaStep_process {bad : List ℕ} {h : Host} {t : End}
    (ht : (sys.ends e).process h = some t) : MediaStep sys (.process e bad) (sys.commit e t) := by
  unfold End.process at ht
  split at ht
  · cases ht
  rename_i event rest hevents
  dsimp only at ht
  split at ht
  · rename_i id error
    cases ht
    refine .quiet ?_ (sameMedia_commit ⟨rfl, rfl⟩)
    simp [mediaTaken, hevents]
  rename_i id m
  -- A failing path leaves the inbox alone.
  have hres : ∃ t' : End, (End.receive h id m { sys.ends e with events := rest }).1 = t' ∧
      t.inbox = t'.inbox ∧ t.output = t'.output := by
    refine ⟨_, rfl, ?_⟩
    split at ht <;> rename_i hreceive <;> cases ht <;> rw [hreceive] <;>
      exact ⟨rfl, rfl⟩
  obtain ⟨t', ht', hinbox, houtput⟩ := hres
  have hsame : SameMedia (sys.ends e) t' → ∀ b, SameMedia (sys.ends b) ((sys.commit e t).ends b) :=
    fun hs => sameMedia_commit ⟨by rw [hinbox]; exact hs.1, by rw [hinbox]; exact hs.2⟩
  unfold End.receive at ht'
  split at ht'
  · rename_i error hparse
    subst ht'
    refine .quiet ?_ (hsame ⟨rfl, rfl⟩)
    simp [mediaTaken, hevents, hparse]
  · rename_i sequence epoch payload hparse
    unfold End.receiveData at ht'
    dsimp only at ht'
    by_cases hc : m.channel ∈ reliable
    · rw [if_pos hc] at ht'
      subst ht'
      refine .quiet ?_ (hsame End.receiveReliable_media)
      simp [mediaTaken, hevents, hparse, hc]
    · rw [if_neg hc] at ht'
      subst ht'
      have hself : ((sys.commit e t).ends e).inbox = t.inbox ∧
          ((sys.commit e t).ends e).output = t.output := by
        rw [commit_self]
        exact ⟨rfl, rfl⟩
      have htakes : Takes sys (sys.commit e t) e m.channel epoch sequence := by
        refine ⟨?_, ?_, ?_, ?_⟩
        · rw [hself.1, hinbox]
          exact End.receiveMedia_epoch
        · rw [hself.1, hinbox]
          exact End.receiveMedia_lossy
        · rw [commit_other]
          exact ⟨rfl, rfl⟩
        · rw [hself.2, houtput]
          dsimp only
          rw [End.receiveMedia_output]
          show (sys.ends e).output.length < (if ((sys.ends e).takes m.channel epoch sequence &&
            (sys.ends e).hasRoom) = true then (sys.ends e).output ++ [_] else _).length ↔ _
          split
          · rename_i hboth
            exact iff_of_true (by simp) (by simpa using hboth)
          · rename_i hneither
            exact iff_of_false (by simp [End.onShared]) (by simpa using hneither)
      refine .taken
        { receiver := e
          channel := m.channel
          epoch := epoch
          sequence := sequence
          fresh := (sys.ends e).takes m.channel epoch sequence
          room := (sys.ends e).hasRoom
          delivered := decide ((sys.ends e).output.length < ((sys.commit e t).ends e).output.length) }
        ?_ hc htakes rfl ?_
      · simp only [mediaTaken, hevents, hparse, if_neg hc]
      · rw [decide_eq_true_iff]
        exact htakes.delivered
  · rename_i kind nonce bytes hparse
    subst ht'
    refine .quiet ?_ (hsame End.receiveInternal_media)
    simp [mediaTaken, hevents, hparse]

inductive InboxStep (g : Setting) (sys : System) : Action → System → Prop
  | quiet {a : Action} {sys' : System} (hprocess : ∀ e bad, a ≠ .process e bad)
      (hdeliver : ∀ e bad, a ≠ .deliver e bad)
      (hinbox : ∀ b, (sys'.ends b).inbox = (sys.ends b).inbox) : InboxStep g sys a sys'
  | process (e : Bool) (bad : List ℕ) (t : End)
      (ht : (sys.ends e).process (sys.host g e bad) = some t) :
      InboxStep g sys (.process e bad) (sys.commit e t)
  | deliver (e : Bool) (bad : List ℕ) (c : Channel) (t : End) (hready : (sys.ends e).ready = some c)
      (ht : (sys.ends e).deliver (sys.host g e bad) c = some t) :
      InboxStep g sys (.deliver e bad) (sys.commit e t)

theorem inbox_commit {t : End} (h : t.inbox = (sys.ends e).inbox) (b : Bool) :
    ((sys.commit e t).ends b).inbox = (sys.ends b).inbox := by
  by_cases hb : b = e
  · subst hb
    rw [commit_self]
    exact h
  · rw [show b = !e by cases b <;> cases e <;> first | rfl | exact absurd rfl hb, commit_other]

theorem inboxStep {a : Action} (h : step g sys a = some sys') : InboxStep g sys a sys' := by
  have hkept : ∀ {e : Bool} {t : End}, t.inbox = (sys.ends e).inbox →
      ∀ b, ((sys.commit e t).ends b).inbox = (sys.ends b).inbox := inbox_commit
  cases a with
  | tick time =>
    cases h
    exact .quiet (by simp) (by simp) fun _ => rfl
  | connect k =>
    obtain ⟨-, rfl⟩ := Runs.some_of_unless h
    exact .quiet (by simp) (by simp) fun _ => rfl
  | sever k closer code =>
    obtain ⟨-, rfl⟩ := Runs.some_of_guard h
    exact .quiet (by simp) (by simp) fun _ => rfl
  | check e =>
    simp only [step] at h
    split at h
    · cases h
    obtain ⟨-, rfl⟩ := Runs.some_of_unless h
    exact .quiet (by simp) (by simp) (hkept rfl)
  | attach e native =>
    obtain ⟨-, rfl⟩ := Runs.some_of_guard h
    refine .quiet (by simp) (by simp) ?_
    unfold System.attach
    dsimp only
    split
    · exact hkept rfl
    · rename_i s id hs
      have := hkept (t := { sys.ends e with shared := s }) rfl
      exact this
  | disconnect e =>
    cases h
    exact .quiet (by simp) (by simp) (hkept rfl)
  | close e code | report e | heartbeat e bad | consume e =>
    obtain ⟨-, rfl⟩ := Runs.some_of_guard h
    exact .quiet (by simp) (by simp) (hkept rfl)
  | send e c request =>
    simp only [step] at h
    split at h
    · split at h
      · cases h
      · rename_i t ht
        cases h
        refine .quiet (by simp) (by simp) (hkept ?_)
        unfold End.send at ht
        simp only [bind, Except.bind, pure, Except.pure] at ht
        split at ht
        · cases ht
        · cases ht
          rfl
    · cases h
  | advance e c i | cancel e c i =>
    simp only [step] at h
    split at h
    · obtain ⟨w, hw, rfl⟩ := Option.map_eq_some_iff.mp h
      exact .quiet (by simp) (by simp) (hkept rfl)
    · cases h
  | wake e c =>
    obtain ⟨-, rfl⟩ := Runs.some_of_guard h
    refine .quiet (by simp) (by simp) (hkept ?_)
    unfold End.wake
    dsimp only
    split <;> rfl
  | take e c =>
    simp only [step] at h
    split at h
    · obtain ⟨t, ht, rfl⟩ := Option.map_eq_some_iff.mp h
      refine .quiet (by simp) (by simp) (hkept ?_)
      unfold End.take at ht
      split at ht
      · cases ht
      split at ht
      · dsimp only at ht
        split at ht <;> cases ht <;> rfl
      · cases ht
    · cases h
  | sealCopy e c i =>
    simp only [step] at h
    split at h
    · unfold sealCopy at h
      dsimp only at h
      split at h
      · split at h
        · cases h
        · rename_i x hx hroom
          cases h
          have := hkept (t := (sys.ends e).setWriter c { (sys.ends e).writers c with
            sending := ((sys.ends e).writers c).sending.set i ⟨x, true⟩ }) rfl
          exact .quiet (by simp) (by simp) this
      · cases h
    · cases h
  | written e c i =>
    simp only [step] at h
    split at h
    · split at h
      · cases h
        exact .quiet (by simp) (by simp) (hkept rfl)
      · cases h
    · cases h
  | writeFails e c i inWrite =>
    simp only [step] at h
    split at h
    · split at h
      · cases h
      · obtain ⟨closure, hclosure, rfl⟩ := Option.map_eq_some_iff.mp h
        exact .quiet (by simp) (by simp) (hkept rfl)
    · cases h
  | media e c header payload bad =>
    simp only [step] at h
    split at h
    · cases h
    split at h
    · cases h
    rename_i sys'' hmedia
    cases h
    refine .quiet (by simp) (by simp) ?_
    unfold media at hmedia
    simp only [bind, Except.bind, pure, Except.pure] at hmedia
    split at hmedia
    · cases hmedia
    split at hmedia
    · cases hmedia
    unfold End.lossySequence at hmedia
    split at hmedia
    · cases hmedia
    rename_i v hv
    split at hv
    · cases hv
    cases hv
    split at hmedia
    all_goals cases hmedia
    · exact hkept (t := (sys.ends e).onShared fun s =>
        { s with allocated := Function.update s.allocated c (s.allocated c + 1) }) rfl
    · exact hkept rfl
    · exact hkept rfl
    · exact hkept rfl
  | arrive e k c n =>
    simp only [step] at h
    split at h
    · unfold arrive at h
      dsimp only at h
      split at h
      · cases h
      obtain ⟨-, rfl⟩ := Runs.some_of_unless h
      exact .quiet (by simp) (by simp) fun _ => rfl
    · cases h
  | lossy e k i =>
    simp only [step] at h
    split at h
    · cases h
    · obtain ⟨m, hm, rfl⟩ := Option.map_eq_some_iff.mp h
      exact .quiet (by simp) (by simp) fun _ => rfl
  | forward e k i =>
    simp only [step] at h
    split at h
    · rename_i r id hr hid
      obtain ⟨-, rfl⟩ := Runs.some_of_guard h
      exact .quiet (by simp) (by simp) (hkept
        rfl)
    · cases h
  | notice e k =>
    simp only [step] at h
    split at h
    · obtain ⟨-, rfl⟩ := Runs.some_of_guard h
      exact .quiet (by simp) (by simp) (hkept rfl)
    · cases h
  | process e bad =>
    simp only [step] at h
    split at h
    · obtain ⟨t, ht, rfl⟩ := Option.map_eq_some_iff.mp h
      exact .process e bad t ht
    · cases h
  | deliver e bad =>
    simp only [step] at h
    split at h
    · obtain ⟨t, ht, rfl⟩ := Option.map_eq_some_iff.mp h
      obtain ⟨c, hready, ht⟩ := Option.bind_eq_some_iff.mp ht
      exact .deliver e bad c t hready ht
    · cases h

theorem mediaStep {a : Action} (h : step g sys a = some sys') : MediaStep sys a sys' := by
  cases inboxStep h with
  | quiet hprocess hdeliver hinbox =>
    refine .quiet ?_ fun b => ⟨by rw [hinbox], by rw [hinbox]⟩
    cases a with
    | process e bad => exact absurd rfl (hprocess e bad)
    | _ => rfl
  | process e bad t ht => exact mediaStep_process ht
  | deliver e bad c t hready ht =>
    refine .quiet rfl (sameMedia_commit ?_)
    unfold End.deliver at ht
    dsimp only at ht
    split at ht
    · cases ht
    · cases ht
      exact ⟨rfl, rfl⟩

/-! ### Every run -/

/-- The sequences of a channel that passed the checks of the inbox of `e`. -/
def freshOn (e : Bool) (c : Channel) (history : List MediaEvent) : Set ℕ :=
  {s | ∃ x ∈ history, x.receiver = e ∧ x.channel = c ∧ x.fresh = true ∧ x.sequence = s}

/-- A message passes the checks iff no newer epoch was seen, its sequence did not
pass them before, and none that did is 64 or more ahead of it. -/
def Judged (before : List MediaEvent) (x : MediaEvent) : Prop :=
  (x.fresh = true ↔
    (∀ b ∈ before, b.receiver = x.receiver → b.epoch ≤ x.epoch) ∧
    x.sequence ∉ freshOn x.receiver x.channel before ∧
    ∀ s ∈ freshOn x.receiver x.channel before, s < x.sequence + 64) ∧
  (x.delivered = true ↔ x.fresh = true ∧ x.room = true)

/-- The inboxes remember what the history says. -/
structure Remembers (sys : System) (history : List MediaEvent) : Prop where
  bound : ∀ x ∈ history, x.epoch ≤ (sys.ends x.receiver).inbox.mediaEpoch
  newest : ∀ e, (sys.ends e).inbox.mediaEpoch = 0 ∨
    ∃ x ∈ history, x.receiver = e ∧ x.epoch = (sys.ends e).inbox.mediaEpoch
  windows : ∀ e, ∀ c ∉ reliable,
    ((sys.ends e).inbox.lossy (c == .audio)).Holds (freshOn e c history)
  judged : Runs.Each Judged history

theorem remembers_start (native : Bool → Native) (now : ℕ) : (start native now).Remembers [] where
  bound := fun x hx => by cases hx
  newest := fun _ => .inl rfl
  windows := fun e c _ => by
    rw [show freshOn e c [] = ∅ by simp [freshOn]]
    exact LossyWindow.holds_new
  judged := Runs.each_nil _

theorem freshOn_concat (e : Bool) (c : Channel) (history : List MediaEvent) (x : MediaEvent) :
    freshOn e c (history ++ [x]) = if x.receiver = e ∧ x.channel = c ∧ x.fresh = true then
      insert x.sequence (freshOn e c history) else freshOn e c history := by
  ext s
  have hmem : s ∈ freshOn e c (history ++ [x]) ↔ s ∈ freshOn e c history ∨
      x.receiver = e ∧ x.channel = c ∧ x.fresh = true ∧ x.sequence = s := by
    constructor
    · rintro ⟨y, hy, hrest⟩
      rcases List.mem_append.mp hy with hy | hy
      · exact .inl ⟨y, hy, hrest⟩
      · obtain rfl := List.mem_singleton.mp hy
        exact .inr hrest
    · rintro (⟨y, hy, hrest⟩ | hrest)
      · exact ⟨y, List.mem_append_left _ hy, hrest⟩
      · exact ⟨x, List.mem_append_right _ (List.mem_singleton.mpr rfl), hrest⟩
  rw [hmem]
  split
  · rename_i hx
    rw [Set.mem_insert_iff]
    constructor
    · rintro (hs | ⟨-, -, -, rfl⟩)
      · exact .inr hs
      · exact .inl rfl
    · rintro (rfl | hs)
      · exact .inr ⟨hx.1, hx.2.1, hx.2.2, rfl⟩
      · exact .inl hs
  · rename_i hx
    exact or_iff_left fun hs => hx ⟨hs.1, hs.2.1, hs.2.2.1⟩

theorem channel_eq_of_audio {c d : Channel} (hc : c ∉ reliable) (hd : d ∉ reliable)
    (h : (c == Channel.audio) = (d == Channel.audio)) : c = d := by
  cases c <;> cases d <;> first | rfl | (exact absurd (by decide) hc) | (exact absurd (by decide) hd) |
    (exact absurd h (by decide))

variable {history : List MediaEvent}

theorem Remembers.taken (h : sys.Remembers history) {x : MediaEvent}
    (hc : x.channel ∉ reliable) (ht : Takes sys sys' x.receiver x.channel x.epoch x.sequence)
    (hfresh : x.fresh = (sys.ends x.receiver).takes x.channel x.epoch x.sequence)
    (hdelivered : x.delivered = true ↔ x.fresh = true ∧ x.room = true) :
    sys'.Remembers (history ++ [x]) := by
  have hwindow := h.windows x.receiver x.channel hc
  have hends : ∀ e, e = x.receiver ∨ x.receiver ≠ e ∧ SameMedia (sys.ends e) (sys'.ends e) := by
    intro e
    by_cases he : e = x.receiver
    · exact .inl he
    · refine .inr ⟨Ne.symm he, ?_⟩
      have : e = !x.receiver := by
        cases e <;> cases hr : x.receiver <;> first | rfl | exact absurd hr.symm he
      rw [this]
      exact ht.other
  have hgrows : ∀ e, (sys.ends e).inbox.mediaEpoch ≤ (sys'.ends e).inbox.mediaEpoch := by
    intro e
    rcases hends e with rfl | ⟨-, hs⟩
    · rw [ht.newest]
      exact le_max_left _ _
    · rw [hs.2]
  refine ⟨fun y hy => ?_, fun e => ?_, fun e c hcr => ?_, h.judged.snoc ⟨?_, hdelivered⟩⟩
  · rcases List.mem_append.mp hy with hy | hy
    · exact (h.bound y hy).trans (hgrows _)
    · obtain rfl := List.mem_singleton.mp hy
      rw [ht.newest]
      exact le_max_right _ _
  · rcases hends e with rfl | ⟨-, hs⟩
    · rw [ht.newest]
      rcases le_total (sys.ends x.receiver).inbox.mediaEpoch x.epoch with hle | hle
      · rw [max_eq_right hle]
        exact .inr ⟨x, List.mem_append_right _ (List.mem_singleton.mpr rfl), rfl, rfl⟩
      · rw [max_eq_left hle]
        exact (h.newest x.receiver).imp_right fun ⟨y, hy, hrest⟩ =>
          ⟨y, List.mem_append_left _ hy, hrest⟩
    · rw [hs.2]
      exact (h.newest e).imp_right fun ⟨y, hy, hrest⟩ => ⟨y, List.mem_append_left _ hy, hrest⟩
  · rw [freshOn_concat]
    rcases hends e with rfl | ⟨hne, hs⟩
    · rw [ht.windows]
      have hold := h.windows x.receiver c hcr
      by_cases hstale : x.epoch < (sys.ends x.receiver).inbox.mediaEpoch
      · have hnot : x.fresh = false := by
          rw [hfresh, End.takes, decide_eq_false (Nat.not_le.mpr hstale), Bool.false_and]
        rw [if_pos hstale, if_neg (by simp [hnot])]
        exact hold
      rw [if_neg hstale]
      have hjudge : x.fresh = (((sys.ends x.receiver).inbox.lossy (x.channel == .audio)).accept
          x.sequence).1 := by
        rw [hfresh, End.takes, decide_eq_true (Nat.le_of_not_lt hstale), Bool.true_and]
      by_cases hsame : (c == Channel.audio) = (x.channel == Channel.audio)
      · obtain rfl := channel_eq_of_audio hcr hc hsame
        rw [Function.update_self]
        obtain ⟨hyes, hno⟩ := hwindow.accept
        cases hf : x.fresh with
        | true =>
          rw [if_pos ⟨rfl, rfl, rfl⟩]
          exact hyes (hjudge ▸ hf)
        | false =>
          rw [if_neg (by simp), hno (hjudge ▸ hf)]
          exact hold
      · rw [Function.update_of_ne hsame, if_neg fun hx => hsame (by rw [hx.2.1])]
        exact hold
    · rw [hs.1, if_neg fun hx => hne hx.1]
      exact h.windows e c hcr
  · rw [hfresh, End.takes, Bool.and_eq_true, decide_eq_true_iff, LossyWindow.accept_iff hwindow]
    refine and_congr_left fun _ => ⟨fun hle b hb hbe => ?_, fun hall => ?_⟩
    · exact (hbe ▸ h.bound b hb).trans hle
    · rcases h.newest x.receiver with hzero | ⟨y, hy, hye, hyn⟩
      · rw [hzero]
        exact Nat.zero_le _
      · rw [← hyn]
        exact hall y hy hye

theorem Remembers.step (h : sys.Remembers history) {a : Action} (hs : step g sys a = some sys') :
    sys'.Remembers (history ++ (mediaTaken sys a sys').toList) := by
  cases mediaStep hs with
  | quiet htaken hsame =>
    rw [htaken, Option.toList_none, List.append_nil]
    refine ⟨fun x hx => ?_, fun e => ?_, fun e c hc => ?_, h.judged⟩
    · rw [(hsame x.receiver).2]
      exact h.bound x hx
    · rw [(hsame e).2]
      exact h.newest e
    · rw [(hsame e).1]
      exact h.windows e c hc
  | taken x htaken hc htakes hfresh hdelivered =>
    rw [htaken, Option.toList_some]
    exact h.taken hc htakes hfresh hdelivered

/-- **Invariant.**  Every media message is judged by what came before it. -/
theorem judged_of_observed {native : Bool → Native} {now : ℕ}
    (hr : Runs.Observed (step g) mediaTaken (start native now) sys history) :
    Runs.Each Judged history :=
  (hr.invariant (remembers_start native now)
    fun _ _ _ _ hrem hs => hrem.step hs).judged

/-- **Media is never replayed or rewound.**  Of every media message that the inbox
of an end takes in, over whatever paths and in whatever order: it reaches the
application exactly when no newer epoch was seen, its sequence is new and inside
the window of the newest one, and the queue to the application has room; what
reaches the application has an epoch not older than all that did before, and a
sequence that did not on its channel. -/
theorem media_taken_once {native : Bool → Native} {now : ℕ} {history : List MediaEvent}
    (hr : Runs.Observed (step g) mediaTaken (start native now) sys history) :
    Runs.Each (fun before x => Judged before x ∧
      (x.delivered = true → ∀ b ∈ before, b.receiver = x.receiver → b.delivered = true →
        b.epoch ≤ x.epoch ∧ (b.channel = x.channel → b.sequence ≠ x.sequence))) history := by
  have h := judged_of_observed hr
  intro before x after heq
  have hx := h before x after heq
  refine ⟨hx, fun hdelivered b hb hreceiver hbd => ?_⟩
  obtain ⟨hepochs, hnew, -⟩ := hx.1.mp (hx.2.mp hdelivered).1
  refine ⟨hepochs b hb hreceiver, fun hchannel hsequence => hnew ?_⟩
  -- What was delivered passed the checks when it came.
  obtain ⟨front, back, rfl⟩ := List.append_of_mem hb
  have hbj := h front b (back ++ x :: after) (by simp [heq])
  exact ⟨b, hb, hreceiver, hchannel, (hbj.2.mp hbd).1, hsequence⟩

/-- A video message goes out and arrives; it is the `n`th. -/
def oneVideo (n : ℕ) : List Action :=
  [.media false .video (MsgHeader.new .ping 0 0) [7] [], .lossy false 0 n, .forward true 0 0,
    .process true []]

/-- A video message that arrives twice. -/
theorem media_taken_once_twice :
    ∃ sys history, Runs.Observed (step sampleSetting) mediaTaken sampleStart sys history ∧
      history.map (·.delivered) = [true, false] ∧
      Runs.Each (fun before x => Judged before x ∧
        (x.delivered = true → ∀ b ∈ before, b.receiver = x.receiver → b.delivered = true →
          b.epoch ≤ x.epoch ∧ (b.channel = x.channel → b.sequence ≠ x.sequence))) history := by
  have hrun : (Runs.tryObserve (step sampleSetting) mediaTaken sampleStart
      (oneVideo 0 ++ [.lossy false 0 0, .forward true 0 0, .process true []])).map
        (fun r => r.2.map (·.delivered)) = some [true, false] := by decide +kernel
  obtain ⟨⟨sys, history⟩, hsys, hhistory⟩ := Option.map_eq_some_iff.mp hrun
  have hr := Runs.observed_of_tryObserve .init hsys
  exact ⟨sys, history, hr, hhistory, media_taken_once hr⟩

/-- The application has taken none of 64 messages: the next one is new, and lost. -/
theorem media_lost_when_full :
    ∃ sys before x, Runs.Observed (step sampleSetting) mediaTaken sampleStart sys (before ++ [x]) ∧
      (∀ b ∈ before, b.receiver = x.receiver → b.epoch ≤ x.epoch) ∧
      x.sequence ∉ freshOn x.receiver x.channel before ∧
      (∀ s ∈ freshOn x.receiver x.channel before, s < x.sequence + 64) ∧ x.delivered = false := by
  have hrun : (Runs.tryObserve (step sampleSetting) mediaTaken sampleStart
      ((List.range 65).flatMap oneVideo)).map (·.2) =
      some ((List.range 64).map (fun n => ⟨true, .video, 0, n, true, true, true⟩) ++
        [⟨true, .video, 0, 64, true, false, false⟩]) := by decide +kernel
  obtain ⟨⟨sys, history⟩, hsys, hhistory⟩ := Option.map_eq_some_iff.mp hrun
  have hr := Runs.observed_of_tryObserve .init hsys
  dsimp only at hhistory
  rw [List.nil_append, hhistory] at hr
  have hjudged := (judged_of_observed hr _ _ [] rfl).1
  obtain ⟨hepochs, hnew, hinside⟩ := hjudged.mp rfl
  exact ⟨sys, _, _, hr, hepochs, hnew, hinside, rfl⟩

end System

end Multipath

end NebulaDesk
