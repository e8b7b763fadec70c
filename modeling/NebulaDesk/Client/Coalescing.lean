/-
Dropping pointer moves (`coalesce` in `ndp-proto/src/input.rs`, and the client's own in
`nebula-client/src/session.rs`).

`Remote` is what a batch is sent to: where each pointer is, what is held, and the modifiers of the
last event.  `KeepsMeaning` says what a batch owes the list it was made of.  The first function keeps
it for every list; the second one looks neither at the pointer nor at the display, and keeps it just
when no pointer loses a position to another one's move (`KeepsPointers`).  The main result is
`coalesce_keeps_meaning`.
-/
import NebulaDesk.Client.WindowInput
import NebulaDesk.Lib.Coalesce

namespace NebulaDesk

open Coalesce Presses

/-- Whether this event is safe to coalesce with an identical successor. -/
def InputKind.isCoalescible : InputKind → Bool
  | mouseMove | mouseDrag => true
  | _ => false

/-- Coalesce consecutive positional moves, keeping only the latest. -/
def InputEvent.coalesce (events : List InputEvent) : List InputEvent :=
  events.foldl (fun out e =>
    match out.getLast? with
    | some prev =>
      if prev.kind = e.kind ∧ e.kind.isCoalescible ∧ prev.button = e.button ∧
          prev.pointerId = e.pointerId ∧ prev.display = e.display then
        out.dropLast ++ [e]
      else out ++ [e]
    | none => out ++ [e]) []

namespace ClientSession

/-- Drop pointer moves that a later move in the same batch supersedes. -/
def coalesce (events : List InputEvent) : List InputEvent :=
  events.foldl (fun out event =>
    let redundant := event.kind = .mouseMove ∧ event.button = .none ∧
      out.getLast?.any fun last => last.kind = .mouseMove ∧ last.button = .none
    (if redundant then out.dropLast else out) ++ [event]) []

end ClientSession

/-! ### The other end -/

structure Place where
  display : ℕ
  x : F32
  y : F32
deriving DecidableEq, Repr

namespace InputEvent

/-- Where an event puts its pointer: somewhere, or nowhere when the pointer leaves. -/
def places (e : InputEvent) : Option (Option Place) :=
  if e.kind.isPointer then some (some ⟨e.display, e.x, e.y⟩)
  else if e.kind = .pointerLeave then some none
  else none

/-- A button or a key goes down or up. -/
def isEdge (e : InputEvent) : Bool := e.pressed.isSome

def isMove (e : InputEvent) : Bool := e.kind = .mouseMove && e.button = .none

end InputEvent

structure Remote where
  pointers : ℕ → Option Place
  held : Finset InputKey
  modifiers : ℕ

namespace Remote

def start : Remote := ⟨fun _ => none, ∅, 0⟩

def step (r : Remote) (e : InputEvent) : Remote where
  pointers :=
    match e.places with
    | some at_ => Function.update r.pointers e.pointerId at_
    | none => r.pointers
  held := leaves r.held e.pressed.toList
  modifiers := e.modifiers

/-- The remote at every button or key event, and in the end. -/
def replay (r : Remote) (events : List InputEvent) : List Remote :=
  sightings step InputEvent.isEdge r events

end Remote

/-- What a coalesced batch owes the list it was made of, of whose events those that are
`coalescible` may go. -/
structure KeepsMeaning (coalescible : InputEvent → Bool)
    (coalesce : List InputEvent → List InputEvent) (l : List InputEvent) : Prop where
  sublist : (coalesce l).Sublist l
  others : (coalesce l).filter (!coalescible ·) = l.filter (!coalescible ·)
  /-- The last event of a run stays, between what is left of the events before and after it. -/
  runs : ∀ before last after, l = before ++ last :: after → coalescible last = true →
    (∀ e ∈ after.head?, ¬(coalescible e = true ∧ e.kind = last.kind)) →
    coalesce l = coalesce (before ++ [last]) ++ coalesce after ∧
      (coalesce (before ++ [last])).getLast? = some last
  idempotent : coalesce (coalesce l) = coalesce l
  replay : ∀ r : Remote, r.replay (coalesce l) = r.replay l

/-! ### Both are survivors -/

/-- The event after `prev` takes its place. -/
def InputEvent.supersedes (prev e : InputEvent) : Bool :=
  prev.kind = e.kind ∧ e.kind.isCoalescible ∧ prev.button = e.button ∧
    prev.pointerId = e.pointerId ∧ prev.display = e.display

/-- Two moves with no button. -/
def ClientSession.supersedes (prev e : InputEvent) : Bool := prev.isMove && e.isMove

theorem InputEvent.coalesce_eq (l : List InputEvent) :
    InputEvent.coalesce l = survivors InputEvent.supersedes l := by
  rw [← foldl_push]
  unfold InputEvent.coalesce
  congr 1
  funext out e
  unfold push InputEvent.supersedes
  cases out.getLast? with
  | none => rfl
  | some prev => simp only [decide_eq_true_eq]

theorem ClientSession.coalesce_eq (l : List InputEvent) :
    ClientSession.coalesce l = survivors ClientSession.supersedes l := by
  rw [← foldl_push]
  unfold ClientSession.coalesce
  congr 1
  funext out e
  unfold push ClientSession.supersedes InputEvent.isMove
  cases out.getLast? with
  | none => simp
  | some last =>
    by_cases hlast : last.kind = .mouseMove ∧ last.button = .none <;>
      by_cases he : e.kind = .mouseMove ∧ e.button = .none <;> simp [hlast, he]

/-! ### What both keep -/

section Shared

variable {coalescible : InputEvent → Bool} {supersedes : InputEvent → InputEvent → Bool}
  (hkind : ∀ a b, supersedes a b = true →
    coalescible a = true ∧ coalescible b = true ∧ a.kind = b.kind)
  (hsymm : ∀ a b, supersedes a b = true → supersedes b a = true)
  (htrans : ∀ a b c, supersedes a b = true → supersedes b c = true → supersedes a c = true)

include hkind hsymm htrans

theorem keepsMeaning_iff (l : List InputEvent) :
    KeepsMeaning coalescible (survivors supersedes) l ↔
      ∀ r : Remote, r.replay (survivors supersedes l) = r.replay l := by
  refine ⟨fun h => h.replay, fun hreplay => ⟨survivors_sublist l, ?_, ?_, ?_, hreplay⟩⟩
  · refine filter_survivors (fun a b hab => ?_) l
    rw [(hkind a b hab).1]
    rfl
  · rintro before last after rfl - hnext
    refine ⟨survivors_append before fun b hb => ?_, getLast?_survivors before last⟩
    rw [← Bool.not_eq_true]
    intro hlast
    obtain ⟨-, hco, hsame⟩ := hkind last b hlast
    exact hnext b hb ⟨hco, hsame.symm⟩
  · exact survivors_idem hsymm htrans l

end Shared

theorem InputEvent.supersedes_iff {a b : InputEvent} : a.supersedes b = true ↔
    a.kind = b.kind ∧ b.kind.isCoalescible = true ∧ a.button = b.button ∧
      a.pointerId = b.pointerId ∧ a.display = b.display := by
  unfold supersedes
  exact decide_eq_true_iff

variable {e : InputEvent}

theorem InputEvent.isMove_iff : e.isMove = true ↔ e.kind = .mouseMove ∧ e.button = .none := by
  unfold isMove
  simp

theorem ClientSession.supersedes_iff {a b : InputEvent} :
    ClientSession.supersedes a b = true ↔ a.isMove = true ∧ b.isMove = true := by
  unfold ClientSession.supersedes
  rw [Bool.and_eq_true]

/-- Where a move puts its pointer. -/
def InputEvent.place (e : InputEvent) : Place := ⟨e.display, e.x, e.y⟩

theorem InputEvent.places_move (h : e.kind.isCoalescible = true) :
    e.places = some (some e.place) ∧ e.pressed = none := by
  unfold InputKind.isCoalescible at h
  unfold places pressed
  split at h
  · rename_i hkind
    rw [hkind]
    exact ⟨rfl, rfl⟩
  · rename_i hkind
    rw [hkind]
    exact ⟨rfl, rfl⟩
  · cases h

theorem InputEvent.isEdge_move (h : e.kind.isCoalescible = true) : e.isEdge = false := by
  rw [isEdge, (places_move h).2]
  rfl

/-- **The protocol's own function keeps the meaning of every list.** -/
theorem InputEvent.coalesce_keepsMeaning (l : List InputEvent) :
    KeepsMeaning (·.kind.isCoalescible) InputEvent.coalesce l := by
  rw [show InputEvent.coalesce = survivors InputEvent.supersedes from funext coalesce_eq]
  refine (keepsMeaning_iff ?_ ?_ ?_ l).mpr fun r => ?_
  · intro a b hab
    obtain ⟨hkind, hco, -⟩ := supersedes_iff.mp hab
    exact ⟨hkind ▸ hco, hco, hkind⟩
  · intro a b hab
    obtain ⟨hkind, hco, hbutton, hpointer, hdisplay⟩ := supersedes_iff.mp hab
    exact supersedes_iff.mpr ⟨hkind.symm, hkind ▸ hco, hbutton.symm, hpointer.symm, hdisplay.symm⟩
  · intro a b c hab hbc
    obtain ⟨hkind, -, hbutton, hpointer, hdisplay⟩ := supersedes_iff.mp hab
    obtain ⟨hkind', hco, hbutton', hpointer', hdisplay'⟩ := supersedes_iff.mp hbc
    exact supersedes_iff.mpr ⟨hkind.trans hkind', hco, hbutton.trans hbutton',
      hpointer.trans hpointer', hdisplay.trans hdisplay'⟩
  · refine sightings_survivors (fun r a b hab => ?_) (fun a b hab => ?_) r l
    · obtain ⟨hkind, hco, -, hpointer, -⟩ := supersedes_iff.mp hab
      obtain ⟨hplaces, hpressed⟩ := places_move hco
      obtain ⟨hplaces', hpressed'⟩ := places_move (hkind ▸ hco)
      -- The pointer is put where `b` says, whatever `a` said of it.
      simp only [Remote.step, hplaces, hpressed, hplaces', hpressed', hpointer,
        Function.update_idem]
      rfl
    · obtain ⟨hkind, hco, -⟩ := supersedes_iff.mp hab
      exact isEdge_move (hkind ▸ hco)

/-! ### Moves of several pointers -/

namespace ClientSession

/-- Whether a pointer is placed again by the end of the next button or key event. -/
def placedAgain (p : ℕ) : List InputEvent → Bool
  | [] => false
  | e :: l => (e.places.isSome && e.pointerId = p) || (!e.isEdge && placedAgain p l)

/-- Where the pointers are put, as far as it is known. -/
abbrev Known := ℕ → Option (Option Place)

def Known.note (known : Known) (e : InputEvent) : Known :=
  match e.places with
  | some at_ => Function.update known e.pointerId (some at_)
  | none => known

/-- Every move that is followed by another one is of a pointer that is placed again before the next
button or key event is over, or leaves it where the events that stay have put it. -/
def KeepsPointers (known : Known) : List InputEvent → Prop
  | a :: b :: l =>
    if supersedes a b then
      (placedAgain a.pointerId (b :: l) = true ∨ known a.pointerId = a.places) ∧
        KeepsPointers known (b :: l)
    else KeepsPointers (known.note a) (b :: l)
  | _ => True

variable {known : Known} {r s : Remote} {p : ℕ} {e : InputEvent} {l : List InputEvent}

theorem placedAgain_cons : placedAgain p (e :: l) = true ↔
    (e.places.isSome = true ∧ e.pointerId = p) ∨ (e.isEdge = false ∧ placedAgain p l = true) := by
  rw [placedAgain, Bool.or_eq_true, Bool.and_eq_true, Bool.and_eq_true, decide_eq_true_iff,
    Bool.not_eq_true']

theorem placedAgain_eq_false : placedAgain p (e :: l) = false ↔
    ¬(e.places.isSome = true ∧ e.pointerId = p) ∧ (e.isEdge = false → placedAgain p l = false) := by
  rw [← Bool.not_eq_true, placedAgain_cons, not_or, not_and (a := e.isEdge = false),
    Bool.not_eq_true]

theorem pointers_step (r : Remote) (e : InputEvent) (p : ℕ) :
    (r.step e).pointers p =
      if e.places.isSome = true ∧ e.pointerId = p then e.places.getD none else r.pointers p := by
  unfold Remote.step
  dsimp only
  cases hplaces : e.places with
  | none => simp
  | some at_ =>
    by_cases hp : e.pointerId = p
    · subst hp
      simp
    · show Function.update r.pointers e.pointerId at_ p = _
      rw [Function.update_of_ne (Ne.symm hp), if_neg fun h => hp h.2]

theorem note_apply (known : Known) (e : InputEvent) (p : ℕ) :
    known.note e p = if e.places.isSome = true ∧ e.pointerId = p then e.places else known p := by
  unfold Known.note
  cases hplaces : e.places with
  | none => simp
  | some at_ =>
    by_cases hp : e.pointerId = p
    · subst hp
      simp
    · simp [Function.update_of_ne (Ne.symm hp), hp]

theorem places_of_isMove (h : e.isMove = true) : e.places = some (some e.place) ∧
    e.pressed = none ∧ e.isEdge = false := by
  have hco : e.kind.isCoalescible = true := by
    rw [(InputEvent.isMove_iff.mp h).1]
    rfl
  exact ⟨(InputEvent.places_move hco).1, (InputEvent.places_move hco).2,
    InputEvent.isEdge_move hco⟩

/-! #### Enough -/

/-- The remote that gets every event and the one that gets those that stay. -/
structure Agree (s r : Remote) (known : Known) (l : List InputEvent) : Prop where
  held : s.held = r.held
  modifiers : s.modifiers = r.modifiers ∨ l ≠ []
  pointers : ∀ p, s.pointers p = r.pointers p ∨ placedAgain p l = true
  known : ∀ p at_, known p = some at_ → r.pointers p = at_

theorem Remote.ext_iff' (hpointers : ∀ p, s.pointers p = r.pointers p) (hheld : s.held = r.held)
    (hmodifiers : s.modifiers = r.modifiers) : s = r := by
  obtain ⟨ps, hs, ms⟩ := s
  obtain ⟨pr, hr, mr⟩ := r
  obtain rfl : ps = pr := funext hpointers
  obtain rfl : hs = hr := hheld
  obtain rfl : ms = mr := hmodifiers
  rfl

theorem Agree.eq (h : Agree s r known []) : s = r :=
  Remote.ext_iff' (fun p => (h.pointers p).resolve_right Bool.false_ne_true) h.held
    (h.modifiers.resolve_right fun hne => hne rfl)

theorem Agree.step (h : Agree s r known (e :: l)) :
    Agree (s.step e) (r.step e) (known.note e) l ∧ (e.isEdge = true → s.step e = r.step e) := by
  have hheld : (s.step e).held = (r.step e).held := by
    show leaves s.held _ = leaves r.held _
    rw [h.held]
  have hpointers : ∀ p, (s.step e).pointers p = (r.step e).pointers p ∨
      e.isEdge = false ∧ placedAgain p l = true := by
    intro p
    rw [pointers_step, pointers_step]
    split
    · exact .inl rfl
    · rename_i hother
      rcases h.pointers p with heq | hagain
      · exact .inl heq
      · exact .inr ((placedAgain_cons.mp hagain).resolve_left hother)
  refine ⟨⟨hheld, .inl rfl, fun p => (hpointers p).imp_right And.right, ?_⟩, fun hedge => ?_⟩
  · intro p at_ hat
    rw [note_apply] at hat
    rw [pointers_step]
    split at hat
    · rename_i hp
      rw [if_pos hp, hat]
      rfl
    · rename_i hp
      rw [if_neg hp]
      exact h.known p at_ hat
  · refine Remote.ext_iff' (fun p => (hpointers p).resolve_right ?_) hheld rfl
    rw [hedge]
    exact fun hno => absurd hno.1 (by decide)

theorem Agree.drop {b : InputEvent} (h : Agree s r known (e :: b :: l)) (he : e.isMove = true)
    (hkept : placedAgain e.pointerId (b :: l) = true ∨ known e.pointerId = e.places) :
    Agree (s.step e) r known (b :: l) := by
  obtain ⟨hplaces, hpressed, hedge⟩ := places_of_isMove he
  refine ⟨?_, .inr (List.cons_ne_nil _ _), fun p => ?_, h.known⟩
  · show leaves s.held e.pressed.toList = r.held
    rw [hpressed]
    exact h.held
  · rw [pointers_step]
    split
    · rename_i hp
      obtain rfl := hp.2
      rcases hkept with hagain | hknown
      · exact .inr hagain
      · rw [hplaces] at hknown ⊢
        exact .inl (h.known _ _ hknown).symm
    · rename_i hother
      rcases h.pointers p with heq | hagain
      · exact .inl heq
      · exact .inr ((placedAgain_cons.mp hagain).resolve_left hother).2

theorem replay_of_keepsPointers (h : Agree s r known l) (hl : KeepsPointers known l) :
    r.replay (survivors supersedes l) = s.replay l := by
  induction l generalizing s r known with
  | nil => rw [h.eq]; rfl
  | cons a l ih =>
    -- The event stays, and so do those that are left of the others.
    have hkeep : ∀ {rest : List InputEvent}, KeepsPointers (known.note a) l →
        rest = survivors supersedes l → r.replay (a :: rest) = s.replay (a :: l) := by
      rintro rest hrest rfl
      obtain ⟨hagree, hedge⟩ := h.step
      have htail := ih hagree hrest
      unfold Remote.replay at htail ⊢
      rw [sightings, sightings, htail]
      split
      · rw [hedge ‹_›]
      · rfl
    cases l with
    | nil => exact hkeep trivial rfl
    | cons b l =>
      unfold KeepsPointers at hl
      by_cases hmoves : supersedes a b = true
      · rw [if_pos hmoves] at hl
        obtain ⟨ha, -⟩ := supersedes_iff.mp hmoves
        rw [survivors_drop hmoves, ih (h.drop ha hl.1) hl.2]
        exact (sightings_unmarked (places_of_isMove ha).2.2 _ _).symm
      · rw [if_neg hmoves] at hl
        rw [survivors_keep (Bool.eq_false_iff.mpr hmoves)]
        exact hkeep hl rfl

/-! #### Needed -/

theorem head?_replay (h : placedAgain p l = false) {x : Remote} (hx : x ∈ (r.replay l).head?) :
    x.pointers p = r.pointers p := by
  induction l generalizing r with
  | nil =>
    cases hx
    rfl
  | cons e l ih =>
    obtain ⟨hother, hlater⟩ := placedAgain_eq_false.mp h
    have hsame : (r.step e).pointers p = r.pointers p := by
      rw [pointers_step, if_neg hother]
    unfold Remote.replay at hx ih
    rw [sightings] at hx
    split at hx
    · cases hx
      exact hsame
    · rename_i hedge
      rw [Bool.not_eq_true] at hedge
      rw [ih (hlater hedge) hx, hsame]

theorem placedAgain_survivors (h : placedAgain p l = false) :
    placedAgain p (survivors supersedes l) = false := by
  induction l with
  | nil => exact h
  | cons a l ih =>
    obtain ⟨hother, hlater⟩ := placedAgain_eq_false.mp h
    cases l with
    | nil => exact h
    | cons b l =>
      rw [survivors]
      split
      · rename_i hmoves
        exact ih (hlater (places_of_isMove (supersedes_iff.mp hmoves).1).2.2)
      · exact placedAgain_eq_false.mpr ⟨hother, fun hedge => ih (hlater hedge)⟩

theorem keepsPointers_of_replay {S R : Remote → Remote}
    (hR : ∀ r p, (R r).pointers p = (known p).getD (r.pointers p))
    (h : ∀ r, (R r).replay (survivors supersedes l) = (S r).replay l) : KeepsPointers known l := by
  induction l generalizing known S R with
  | nil => trivial
  | cons a l ih =>
    cases l with
    | nil => trivial
    | cons b l =>
      unfold KeepsPointers
      by_cases hmoves : supersedes a b = true
      · obtain ⟨ha, -⟩ := supersedes_iff.mp hmoves
        obtain ⟨hplaces, -, hedge⟩ := places_of_isMove ha
        have hnext : ∀ r, (R r).replay (survivors supersedes (b :: l)) =
            ((S r).step a).replay (b :: l) := by
          intro r
          rw [← survivors_drop hmoves, h r]
          exact sightings_unmarked hedge _ _
        rw [if_pos hmoves]
        refine ⟨?_, ih hR hnext⟩
        by_contra hlost
        rw [not_or, Bool.not_eq_true] at hlost
        -- Both remotes still have the pointer where it was, the one with the move and the other.
        have hat : ∀ r, (R r).pointers a.pointerId = some a.place := by
          intro r
          obtain ⟨x, rest, hx⟩ := List.exists_cons_of_ne_nil
            (sightings_ne_nil
              ((S r).step a) (b :: l))
          have hhead : x ∈ (((S r).step a).replay (b :: l)).head? := by
            show x ∈ (sightings _ _ _ _).head?
            rw [hx]
            rfl
          have hout := head?_replay (placedAgain_survivors hlost.1) (by rwa [hnext r])
          rw [← hout, head?_replay hlost.1 hhead, pointers_step,
            if_pos ⟨by rw [hplaces]; rfl, rfl⟩, hplaces]
          rfl
        have hstart := (hR Remote.start a.pointerId).symm.trans (hat Remote.start)
        cases hknown : known a.pointerId with
        | none =>
          rw [hknown] at hstart
          cases hstart
        | some at_ =>
          rw [hknown] at hstart
          exact hlost.2 (by rw [hknown, hplaces, ← hstart]; rfl)
      · rw [if_neg hmoves]
        refine ih (S := fun r => (S r).step a) (R := fun r => (R r).step a) ?_ ?_
        · intro r p
          rw [pointers_step, note_apply]
          split
          · rename_i hp
            obtain ⟨at_, hat⟩ := Option.isSome_iff_exists.mp hp.1
            rw [hat]
            rfl
          · exact hR r p
        · intro r
          have hr := h r
          rw [survivors_keep (Bool.eq_false_iff.mpr hmoves)] at hr
          unfold Remote.replay at hr ⊢
          rw [sightings, sightings] at hr
          split at hr
          · exact (List.cons.inj hr).2
          · exact hr

theorem coalesce_keepsMeaning_iff (l : List InputEvent) :
    KeepsMeaning InputEvent.isMove coalesce l ↔ KeepsPointers (fun _ => none) l := by
  rw [show coalesce = survivors supersedes from funext coalesce_eq]
  rw [keepsMeaning_iff]
  · constructor
    · exact fun h => keepsPointers_of_replay (fun _ _ => rfl) h
    · intro hl r
      exact replay_of_keepsPointers ⟨rfl, .inl rfl, fun _ => .inl rfl, fun _ _ h => by cases h⟩ hl
  · intro a b hab
    obtain ⟨ha, hb⟩ := supersedes_iff.mp hab
    refine ⟨ha, hb, ?_⟩
    rw [(InputEvent.isMove_iff.mp ha).1, (InputEvent.isMove_iff.mp hb).1]
  · exact fun a b hab => supersedes_iff.mpr (supersedes_iff.mp hab).symm
  · exact fun a b c hab hbc =>
      supersedes_iff.mpr ⟨(supersedes_iff.mp hab).1, (supersedes_iff.mp hbc).2⟩

end ClientSession

/-- **Coalescing keeps the meaning of a list.**  The protocol's function does for every list: events
that are no moves stay in order, the last move of every run stays, coalescing twice is coalescing
once, and a remote is in the same state at every button or key event and in the end.  The client's
does just for the lists in which no pointer loses a position to the move of another one. -/
theorem coalesce_keeps_meaning (l : List InputEvent) :
    KeepsMeaning (·.kind.isCoalescible) InputEvent.coalesce l ∧
      (KeepsMeaning InputEvent.isMove ClientSession.coalesce l ↔
        ClientSession.KeepsPointers (fun _ => none) l) :=
  ⟨InputEvent.coalesce_keepsMeaning l, ClientSession.coalesce_keepsMeaning_iff l⟩

def twoPointers : List InputEvent :=
  [⟨.mouseMove, .none, 0, 0, 1, ⟨0x3f000000⟩, ⟨0⟩, ⟨0⟩, ⟨0⟩, 0, 0⟩,
    ⟨.mouseMove, .none, 0, 0, 0, ⟨0⟩, ⟨0⟩, ⟨0⟩, ⟨0⟩, 0, 0⟩]

/-- The client drops the move of pointer 1, which is never where it was moved to. -/
theorem pointer_left_behind : ¬ ∀ l : List InputEvent,
    KeepsMeaning (·.kind.isCoalescible) InputEvent.coalesce l ∧
      KeepsMeaning InputEvent.isMove ClientSession.coalesce l := by
  intro hall
  have hreplay := (hall twoPointers).2.replay Remote.start
  have hpointer := congrArg (List.map fun r => r.pointers 1) hreplay
  revert hpointer
  decide

end NebulaDesk
