/-
What each call of `VideoOrder` does (`nebula-client/src/video.rs`).

`Aligned` ties the positions of the buffer to sequence numbers: the frame held at
`position + d` is the one `d` after the frame wanted next.  From it follows what
`drain` releases, a run of consecutive frames (`Drains`), and from that what an
arrival can do (`acceptAt_call`).
-/
import NebulaDesk.Client.VideoOrder

namespace NebulaDesk

open Std (ExtTreeMap)

/-- A frame as it arrived: `id` counts the arrivals. -/
structure Arrival where
  id : ℕ
  seq : UInt32
  keyframe : Bool
  payload : List UInt8
deriving DecidableEq

/-- Frames with consecutive sequence numbers, the first of them `n`. -/
def Consecutive : UInt32 → List Arrival → Prop
  | _, [] => True
  | n, a :: rest => a.seq = n ∧ Consecutive (n + 1) rest

theorem toNat_succ (n : UInt32) : (n + 1).toNat = (n.toNat + 1) % 2 ^ 32 := by
  rw [UInt32.toNat_add]
  rfl

theorem getElem?_insertKey {β κ : Type} [Ord κ] [Std.TransOrd κ] [Std.LawfulEqOrd κ] [DecidableEq κ]
    (m : ExtTreeMap κ β) (k i : κ) (v : β) :
    (m.insert k v)[i]? = if k = i then some v else m[i]? := by
  simp only [ExtTreeMap.getElem?_insert, Std.compare_eq_iff_eq]

theorem getElem?_eraseKey {β κ : Type} [Ord κ] [Std.TransOrd κ] [Std.LawfulEqOrd κ] [DecidableEq κ]
    (m : ExtTreeMap κ β) (k i : κ) : (m.erase k)[i]? = if k = i then none else m[i]? := by
  simp only [ExtTreeMap.getElem?_erase, Std.compare_eq_iff_eq]

theorem getElem?_filterKey {β κ : Type} [Ord κ] [Std.TransOrd κ] [Std.LawfulEqOrd κ]
    {m : ExtTreeMap κ β} {p : κ → Bool} {i : κ} {v : β}
    (h : (m.filter fun k _ => p k)[i]? = some v) : m[i]? = some v ∧ p i = true := by
  rw [ExtTreeMap.getElem?_filter] at h
  obtain ⟨hv, hp⟩ := Option.pfilter_eq_some_iff.mp h
  refine ⟨hv, ?_⟩
  simpa using hp

theorem maxByKey_fold {κ : Type} (f : κ → ℕ) : ∃ g : Option κ → κ → Option κ,
    (∀ best key, g best key = some key ∨ best.isSome = true ∧ g best key = best) ∧
      ∀ keys, maxByKey f keys = keys.foldl g none := by
  refine ⟨_, fun best key => ?_, fun _ => rfl⟩
  cases best with
  | none => exact .inl rfl
  | some held =>
    dsimp only
    split
    · exact .inl rfl
    · exact .inr ⟨rfl, rfl⟩

theorem maxByKey_mem {κ : Type} {f : κ → ℕ} {keys : List κ} {k : κ}
    (h : maxByKey f keys = some k) : k ∈ keys := by
  obtain ⟨g, hg, hmax⟩ := maxByKey_fold f
  have hfold : ∀ (rest : List κ) (best : Option κ), rest.foldl g best = some k →
      best = some k ∨ k ∈ rest := by
    intro rest
    induction rest with
    | nil => exact fun best h => .inl h
    | cons key rest ih =>
      intro best h
      rcases ih _ h with hbest | hrest
      · rcases hg best key with hkey | ⟨-, hsame⟩
        · obtain rfl := Option.some.inj (hkey.symm.trans hbest)
          exact .inr List.mem_cons_self
        · exact .inl (hsame.symm.trans hbest)
      · exact .inr (List.mem_cons_of_mem _ hrest)
  rcases hfold keys none ((hmax keys).symm.trans h) with h | h
  · cases h
  · exact h

theorem maxByKey_ne_none {κ : Type} {f : κ → ℕ} {keys : List κ} (hne : keys ≠ []) :
    maxByKey f keys ≠ none := by
  obtain ⟨g, hg, hmax⟩ := maxByKey_fold f
  have hfold : ∀ (rest : List κ) (best : Option κ), rest.foldl g best = none →
      best = none ∧ rest = [] := by
    intro rest
    induction rest with
    | nil => exact fun best h => ⟨h, rfl⟩
    | cons key rest ih =>
      intro best h
      obtain ⟨hbest, -⟩ := ih _ h
      rcases hg best key with hkey | ⟨hsome, hsame⟩
      · cases hkey.symm.trans hbest
      · rw [hsame.symm.trans hbest] at hsome
        cases hsome
  intro h
  exact hne (hfold keys none ((hmax keys).symm.trans h)).2

namespace VideoOrder

/-- The frame is in the buffer. -/
def Held (o : VideoOrder Arrival) (a : Arrival) : Prop :=
  (∃ k : ℕ, o.pending[k]? = some a) ∨ ∃ q : UInt32, o.orphans[q]? = some a

/-- The buffer is anchored with `n` wanted next, and every frame in its place. -/
structure Aligned (o : VideoOrder Arrival) (n : UInt32) : Prop where
  next : o.next = some n
  placed : ∀ (k : ℕ) a, o.pending[k]? = some a → o.position ≤ k ∧ k < o.position + 2 ^ 31 ∧
    a.seq.toNat = (n.toNat + (k - o.position)) % 2 ^ 32
  orphans : ∀ q : UInt32, o.orphans[q]? = none

variable {o : VideoOrder Arrival} {n : UInt32} {now : ℕ} {a : Arrival} {t : VideoOrder Arrival}

theorem Aligned.place_unique (h : o.Aligned n) {k k' : ℕ}
    (hk : o.pending[k]? = some a) (hk' : o.pending[k']? = some a) : k = k' := by
  obtain ⟨hle, hlt, heq⟩ := h.placed k a hk
  obtain ⟨hle', hlt', heq'⟩ := h.placed k' a hk'
  omega

/-- What a run of the loop of `drain` does. -/
structure Drains (o o' : VideoOrder Arrival) (n : UInt32) (new : List Arrival) : Prop where
  consecutive : Consecutive n new
  aligned : ∃ n', o'.Aligned n' ∧ ∀ last ∈ new.getLast?, last.seq + 1 = n'
  still : new = [] → o'.next = o.next
  size : o'.pending.size + new.length = o.pending.size
  nodup : new.Nodup
  came : ∀ a ∈ new, ∃ k : ℕ, o.pending[k]? = some a
  left : ∀ (k : ℕ) a, o'.pending[k]? = some a → o.pending[k]? = some a ∧ a ∉ new

theorem Aligned.drainOne (h : o.Aligned n) (ha : o.pending[o.position]? = some a) :
    let o₁ := { o with
      pending := o.pending.erase o.position
      position := o.position + 1
      next := some (o.next.getD 0 + 1) }
    a.seq = n ∧ o₁.Aligned (n + 1) ∧ o₁.pending.size + 1 = o.pending.size ∧
      ∀ (k : ℕ) b, o₁.pending[k]? = some b → o.pending[k]? = some b ∧ b ≠ a := by
  intro o₁
  have hleft : ∀ (k : ℕ) b, o₁.pending[k]? = some b →
      o.position ≠ k ∧ o.pending[k]? = some b := by
    intro k b hb
    rw [show o₁.pending = o.pending.erase o.position from rfl, getElem?_eraseKey] at hb
    split at hb
    · cases hb
    · rename_i hne
      exact ⟨hne, hb⟩
  refine ⟨?_, ⟨?_, ?_, h.orphans⟩, ?_, ?_⟩
  · obtain ⟨-, -, hseq⟩ := h.placed _ a ha
    have hlt := n.toNat_lt
    refine UInt32.toNat_inj.mp ?_
    rw [hseq, Nat.sub_self, Nat.add_zero]
    exact Nat.mod_eq_of_lt hlt
  · show some (o.next.getD 0 + 1) = _
    rw [h.next]
    rfl
  · intro k b hb
    obtain ⟨hne, hb⟩ := hleft k b hb
    obtain ⟨hle, hlt, hseq⟩ := h.placed k b hb
    show o.position + 1 ≤ k ∧ k < o.position + 1 + 2 ^ 31 ∧ _
    rw [toNat_succ]
    refine ⟨by omega, by omega, ?_⟩
    show b.seq.toNat = ((n.toNat + 1) % 2 ^ 32 + (k - (o.position + 1))) % 2 ^ 32
    rw [hseq]
    omega
  · have hcontains : o.pending.contains o.position = true :=
      ExtTreeMap.contains_iff_mem.mpr (ExtTreeMap.mem_iff_isSome_getElem?.mpr (by rw [ha]; rfl))
    have hpos : o.pending.size ≠ 0 := by
      intro hzero
      rw [ExtTreeMap.eq_empty_iff_size_eq_zero.mpr hzero] at ha
      simp at ha
    show (o.pending.erase o.position).size + 1 = _
    rw [ExtTreeMap.size_erase, if_pos hcontains]
    omega
  · intro k b hb
    obtain ⟨hne, hb⟩ := hleft k b hb
    refine ⟨hb, ?_⟩
    rintro rfl
    exact hne (h.place_unique ha hb)

theorem drainLoop_spec (h : o.Aligned n) (fuel : ℕ) (frames : List Arrival) :
    ∃ new o', drainLoop fuel o frames = (o', frames ++ new) ∧ Drains o o' n new ∧
      (o.pending.size ≤ fuel → o'.pending[o'.position]? = none) ∧
      (0 < fuel → ∀ a, o.pending[o.position]? = some a → ∃ rest, new = a :: rest) := by
  induction fuel generalizing o n frames with
  | zero =>
    refine ⟨[], o, by rw [drainLoop, List.append_nil],
      ⟨trivial, ⟨n, h, nofun⟩, fun _ => rfl, rfl, List.nodup_nil, nofun, ?_⟩, ?_, nofun⟩
    · exact fun k a ha => ⟨ha, List.not_mem_nil⟩
    · intro hsize
      rw [ExtTreeMap.eq_empty_iff_size_eq_zero.mpr (Nat.le_zero.mp hsize)]
      simp
  | succ fuel ih =>
    cases ha : o.pending[o.position]? with
    | none =>
      refine ⟨[], o, by rw [drainLoop, ha, List.append_nil],
        ⟨trivial, ⟨n, h, nofun⟩, fun _ => rfl, rfl, List.nodup_nil, nofun, ?_⟩, fun _ => ha, nofun⟩
      exact fun k a ha => ⟨ha, List.not_mem_nil⟩
    | some a =>
      obtain ⟨hseq, haligned, hsize, hleft⟩ := h.drainOne ha
      obtain ⟨new, o', hloop, hdrains, hdone, -⟩ := ih haligned (frames ++ [a])
      refine ⟨a :: new, o', ?_, ⟨⟨hseq, hdrains.consecutive⟩, ?_, nofun, ?_, ?_, ?_, ?_⟩, ?_, ?_⟩
      · rw [drainLoop, ha, List.append_cons]
        exact hloop
      · obtain ⟨n', hn', hlast⟩ := hdrains.aligned
        refine ⟨n', hn', ?_⟩
        cases new with
        | nil =>
          intro last hl
          have hlast' : a = last := Option.some.inj hl
          rw [← hlast', hseq]
          have hnext := hdrains.still rfl
          rw [hn'.next, haligned.next] at hnext
          exact (Option.some.inj hnext).symm
        | cons b rest =>
          rw [List.getLast?_cons_cons]
          exact hlast
      · rw [List.length_cons, ← hsize, ← hdrains.size]
        omega
      · refine List.nodup_cons.mpr ⟨?_, hdrains.nodup⟩
        intro hmem
        obtain ⟨k, hk⟩ := hdrains.came a hmem
        exact (hleft k a hk).2 rfl
      · intro b hb
        rcases List.mem_cons.mp hb with rfl | hb
        · exact ⟨_, ha⟩
        · obtain ⟨k, hk⟩ := hdrains.came b hb
          exact ⟨k, (hleft k b hk).1⟩
      · intro k b hb
        obtain ⟨hb', hnew⟩ := hdrains.left k b hb
        obtain ⟨hb'', hne⟩ := hleft k b hb'
        exact ⟨hb'', List.not_mem_cons_of_ne_of_not_mem hne hnew⟩
      · intro hle
        exact hdone (by omega)
      · intro _ b hb
        cases hb
        exact ⟨new, rfl⟩

/-- `drain` on a buffer in order. -/
theorem drain_spec (h : o.Aligned n) (now : ℕ) :
    Drains o (o.drain now).2 n (o.drain now).1.frames ∧
      (o.drain now).2.pending[(o.drain now).2.position]? = none ∧
      ∀ a, o.pending[o.position]? = some a → ∃ rest, (o.drain now).1.frames = a :: rest := by
  obtain ⟨new, o', hloop, hdrains, hdone, hfirst⟩ := drainLoop_spec h o.pending.size []
  rw [List.nil_append] at hloop
  -- the time of the gap is all that is left to set
  obtain ⟨gap, hgap⟩ : ∃ gap, o.drain now = (⟨new, false⟩, { o' with gapSince := gap }) := by
    unfold drain
    rw [hloop]
    dsimp only
    split
    · exact ⟨_, rfl⟩
    split
    · exact ⟨_, rfl⟩
    · exact ⟨o'.gapSince, rfl⟩
  rw [hgap]
  refine ⟨⟨hdrains.consecutive, ?_, hdrains.still, hdrains.size, hdrains.nodup, hdrains.came,
    hdrains.left⟩, hdone le_rfl, ?_⟩
  · obtain ⟨n', hn', hlast⟩ := hdrains.aligned
    exact ⟨n', { hn' with }, hlast⟩
  · intro a ha
    refine hfirst ?_ a ha
    refine Nat.pos_of_ne_zero ?_
    intro hzero
    rw [ExtTreeMap.eq_empty_iff_size_eq_zero.mpr hzero] at ha
    simp at ha

/-! ### What is held -/

/-- The buffer between calls; `last` is the frame released last. -/
structure Inv (o : VideoOrder Arrival) (last : Option UInt32) : Prop where
  unanchored : o.next = none → ∀ k : ℕ, o.pending[k]? = none
  anchored : ∀ n, o.next = some n → o.Aligned n ∧ ∃ b, last = some b ∧ b + 1 = n
  named : ∀ (q : UInt32) a, o.orphans[q]? = some a → a.seq = q
  pendingSize : o.pending.size ≤ reorderWindow
  orphansSize : o.orphans.size ≤ reorderWindow

theorem inv_new : (new : VideoOrder Arrival).Inv none where
  unanchored := by simp [new]
  anchored := nofun
  named := by simp [new]
  pendingSize := by simp [new]
  orphansSize := by simp [new]

/-- How a call releases frames. -/
inductive Release (o : VideoOrder Arrival) (arrival : Option Arrival) : List Arrival → Prop
  | none : (o.next = .none → ∀ a, some a = arrival → a.keyframe = false) → Release o arrival []
  /-- The frame wanted next has come. -/
  | onward (n : UInt32) (new : List Arrival) : o.next = some n → Consecutive n new →
      Release o arrival new
  /-- A keyframe takes over from the frame wanted next. -/
  | skipped (n : UInt32) (a : Arrival) (rest : List Arrival) : o.next = some n →
      some a = arrival → a.keyframe = true → (a.seq - n).toNat < (2 ^ 32 - 1) / 2 →
      Consecutive a.seq (a :: rest) → Release o arrival (a :: rest)
  /-- A keyframe anchors the stream. -/
  | anchored (a : Arrival) (rest : List Arrival) : o.next = .none → some a = arrival →
      a.keyframe = true → Consecutive a.seq (a :: rest) → Release o arrival (a :: rest)

/-- Where the frames of a call come from, and which are still held after it. -/
structure Takes (o o' : VideoOrder Arrival) (arrival : Option Arrival) (new : List Arrival) :
    Prop where
  nodup : new.Nodup
  came : ∀ b ∈ new, o.Held b ∨ some b = arrival
  kept : ∀ b, o'.Held b → (o.Held b ∨ some b = arrival) ∧ b ∉ new

/-- The frame released last, after a call has released `new`. -/
def lastOf (last : Option UInt32) (new : List Arrival) : Option UInt32 :=
  (new.getLast?.map (·.seq)).or last

structure Call (o : VideoOrder Arrival) (last : Option UInt32) (arrival : Option Arrival)
    (result : Ready Arrival × VideoOrder Arrival) : Prop where
  inv : result.2.Inv (lastOf last result.1.frames)
  release : Release o arrival result.1.frames
  takes : Takes o result.2 arrival result.1.frames

variable {last : Option UInt32} {arrival : Option Arrival}

theorem ask_call (hinv : t.Inv last)
    (hquiet : o.next = none → ∀ a, some a = arrival → a.keyframe = false)
    (hkept : ∀ b, t.Held b → o.Held b ∨ some b = arrival) (now : ℕ) :
    Call o last arrival (t.ask now) := by
  have hcall : ∀ r : Ready Arrival × VideoOrder Arrival, r.1.frames = [] →
      r.2.Inv last → (∀ b, r.2.Held b → t.Held b) → Call o last arrival r := by
    intro r hframes hr hheld
    refine ⟨by rw [hframes]; exact hr, by rw [hframes]; exact .none hquiet, ?_⟩
    rw [hframes]
    exact ⟨List.nodup_nil, nofun, fun b hb => ⟨hkept b (hheld b hb), List.not_mem_nil⟩⟩
  unfold ask
  split
  · exact hcall _ rfl hinv fun b hb => hb
  · refine hcall _ rfl ⟨hinv.unanchored, ?_, hinv.named, hinv.pendingSize, hinv.orphansSize⟩
      fun b hb => hb
    intro n hn
    obtain ⟨haligned, hlast⟩ := hinv.anchored n hn
    exact ⟨{ haligned with }, hlast⟩

theorem reset_call (t : VideoOrder Arrival) (last : Option UInt32)
    (hquiet : o.next = none → ∀ a, some a = arrival → a.keyframe = false) (now : ℕ) :
    Call o last arrival (t.reset now) := by
  refine ask_call ⟨by simp, (fun n hn => by cases hn), by simp, by simp, by simp⟩ hquiet ?_ now
  rintro b (⟨k, hk⟩ | ⟨q, hq⟩)
  · simp at hk
  · simp at hq

theorem still_call (hinv : o.Inv last)
    (hquiet : o.next = none → ∀ a, some a = arrival → a.keyframe = false) :
    Call o last arrival (⟨[], false⟩, o) :=
  ⟨hinv, .none hquiet, List.nodup_nil, nofun, fun _ hb => ⟨.inl hb, List.not_mem_nil⟩⟩

theorem hold_size (seq : UInt32) (a : Arrival) (h : o.orphans.size ≤ reorderWindow) :
    (o.hold seq a).orphans.size ≤ reorderWindow := by
  unfold hold
  dsimp only
  have hfilter : (o.orphans.filter fun held _ =>
      decide (distance held seq ≤ reorderWindow)).size ≤ o.orphans.size :=
    ExtTreeMap.size_filter_le_size
  generalize o.orphans.filter _ = near at hfilter ⊢
  have hinsert : (near.insert seq a).size ≤ near.size + 1 := ExtTreeMap.size_insert_le
  split
  · rename_i hfull
    cases hmax : maxByKey (distance · seq) (near.insert seq a).keys with
    | none =>
      refine absurd hmax (maxByKey_ne_none ?_)
      intro hnil
      have hlen : (near.insert seq a).keys.length = (near.insert seq a).size :=
        ExtTreeMap.length_keys
      rw [hnil, List.length_nil] at hlen
      omega
    | some farthest =>
      have hmem : (near.insert seq a).contains farthest = true :=
        ExtTreeMap.contains_iff_mem.mpr (ExtTreeMap.mem_keys.mp (maxByKey_mem hmax))
      show ((near.insert seq a).erase farthest).size ≤ reorderWindow
      rw [ExtTreeMap.size_erase, if_pos hmem]
      omega
  · rename_i hfit
    exact Nat.le_of_not_lt hfit

theorem hold_orphans {seq q : UInt32} {a b : Arrival} (h : (o.hold seq a).orphans[q]? = some b) :
    o.orphans[q]? = some b ∨ (q = seq ∧ b = a) := by
  have hnear : ∀ b, ((o.orphans.filter fun held _ =>
      decide (distance held seq ≤ reorderWindow)).insert seq a)[q]? = some b →
      o.orphans[q]? = some b ∨ (q = seq ∧ b = a) := by
    intro b hb
    rw [getElem?_insertKey] at hb
    split at hb
    · rename_i hq
      exact .inr ⟨hq.symm, (Option.some.inj hb).symm⟩
    · exact .inl (getElem?_filterKey hb).1
  unfold hold at h
  dsimp only at h
  split at h
  · split at h
    · exact hnear b h
    · dsimp only at h
      rw [getElem?_eraseKey] at h
      split at h
      · cases h
      · exact hnear b h
  · exact hnear b h

theorem hold_rest (seq : UInt32) (a : Arrival) :
    (o.hold seq a).next = o.next ∧ (o.hold seq a).pending = o.pending ∧
      (o.hold seq a).position = o.position := by
  unfold hold
  dsimp only
  split
  · split
    · exact ⟨rfl, rfl, rfl⟩
    · exact ⟨rfl, rfl, rfl⟩
  · exact ⟨rfl, rfl, rfl⟩

/-- The loop of `promote`. -/
theorem promoteOne_foldl (key : UInt32) (held : List (UInt32 × Arrival)) :
    let t := held.foldl (promoteOne key) o
    t.next = o.next ∧ t.position = o.position ∧ t.orphans = o.orphans ∧
      t.pending.size ≤ o.pending.size + held.length ∧
      t.pending[t.position]? = o.pending[o.position]? ∧
      ∀ (k : ℕ) b, t.pending[k]? = some b → o.pending[k]? = some b ∨
        ∃ q, (q, b) ∈ held ∧ 0 < (q - key).toNat ∧ (q - key).toNat ≤ reorderWindow ∧
          k = o.position + (q - key).toNat := by
  induction held generalizing o with
  | nil => exact ⟨rfl, rfl, rfl, le_rfl, rfl, fun k b hb => .inl hb⟩
  | cons first rest ih =>
    obtain ⟨hnext, hposition, horphans, hsize, hfirst, hplaced⟩ := ih (o := promoteOne key o first)
    by_cases hskip : (first.1 - key).toNat = 0 ∨ (first.1 - key).toNat > reorderWindow
    · have hone : promoteOne key o first = o := by
        unfold promoteOne
        rw [if_pos hskip]
      rw [hone] at hnext hposition horphans hsize hfirst hplaced
      rw [List.foldl_cons, hone]
      refine ⟨hnext, hposition, horphans, ?_, hfirst, ?_⟩
      · rw [List.length_cons]
        omega
      · intro k b hb
        rcases hplaced k b hb with hold | ⟨q, hq, hrest⟩
        · exact .inl hold
        · exact .inr ⟨q, List.mem_cons_of_mem _ hq, hrest⟩
    · have hone : promoteOne key o first = { o with
          pending := o.pending.insert (o.position + (first.1 - key).toNat) first.2 } := by
        unfold promoteOne
        rw [if_neg hskip]
      rw [hone] at hnext hposition horphans hsize hfirst hplaced
      rw [List.foldl_cons, hone]
      refine ⟨hnext, hposition, horphans, ?_, ?_, ?_⟩
      · have hinsert : (o.pending.insert (o.position + (first.1 - key).toNat) first.2).size ≤
            o.pending.size + 1 := ExtTreeMap.size_insert_le
        rw [List.length_cons]
        dsimp only at hsize
        omega
      · rw [hfirst]
        dsimp only
        rw [getElem?_insertKey, if_neg (by omega)]
      · intro k b hb
        rcases hplaced k b hb with hold | ⟨q, hq, hrest⟩
        · dsimp only at hold
          rw [getElem?_insertKey] at hold
          split at hold
          · rename_i hk
            refine .inr ⟨first.1, ?_, by omega, by omega, hk.symm⟩
            rw [← Option.some.inj hold]
            exact List.mem_cons_self
          · exact .inl hold
        · exact .inr ⟨q, List.mem_cons_of_mem _ hq, hrest⟩

theorem promote_spec (key : UInt32) (o : VideoOrder Arrival) :
    let t := o.promote key
    t.next = o.next ∧ t.position = o.position ∧ t.orphans = ∅ ∧
      t.pending.size ≤ o.pending.size + o.orphans.size ∧
      t.pending[t.position]? = o.pending[o.position]? ∧
      ∀ (k : ℕ) b, t.pending[k]? = some b → o.pending[k]? = some b ∨
        ∃ q : UInt32, o.orphans[q]? = some b ∧ (q - key).toNat ≤ reorderWindow ∧
          k = o.position + (q - key).toNat := by
  obtain ⟨hnext, hposition, horphans, hsize, hfirst, hplaced⟩ :=
    promoteOne_foldl key o.orphans.toList
  rw [ExtTreeMap.length_toList] at hsize
  refine ⟨hnext, hposition, horphans, hsize, hfirst, ?_⟩
  intro k b hb
  rcases hplaced k b hb with hold | ⟨q, hq, -, hle, hk⟩
  · exact .inl hold
  · exact .inr ⟨q, ExtTreeMap.mem_toList_iff_getElem?_eq_some.mp hq, hle, hk⟩

/-- A run of the buffer from the call's own arrangement of it: `t` is what is
drained, `a` the arrival that is part of it. -/
theorem drain_call (ht : t.Aligned n)
    (hheld : ∀ (k : ℕ) b, t.pending[k]? = some b → o.Held b ∨ some b = arrival)
    (hrelease : Release o arrival (t.drain now).1.frames)
    (hlast : (t.drain now).1.frames = [] → last.map (· + 1) = some n)
    (hfit : (t.drain now).2.pending.size ≤ reorderWindow) : Call o last arrival (t.drain now) := by
  obtain ⟨hdrains, -, -⟩ := drain_spec ht now
  obtain ⟨n', hn', hend⟩ := hdrains.aligned
  refine ⟨⟨?_, ?_, ?_, hfit, ?_⟩, hrelease, hdrains.nodup, ?_, ?_⟩
  · intro hnone
    rw [hn'.next] at hnone
    cases hnone
  · intro m hm
    rw [hn'.next] at hm
    cases hm
    refine ⟨hn', ?_⟩
    cases hframes : (t.drain now).1.frames.getLast? with
    | none =>
      have hnil := List.getLast?_eq_none_iff.mp hframes
      have hstill := hdrains.still hnil
      rw [hn'.next, ht.next] at hstill
      obtain ⟨b, hb, hbn⟩ := Option.map_eq_some_iff.mp (hlast hnil)
      refine ⟨b, ?_, hbn.trans (Option.some.inj hstill).symm⟩
      rw [lastOf, hframes]
      exact hb
    | some b =>
      refine ⟨b.seq, ?_, hend b hframes⟩
      rw [lastOf, hframes]
      rfl
  · intro q b hq
    rw [hn'.orphans q] at hq
    cases hq
  · have hempty : (t.drain now).2.orphans = ∅ := by
      refine ExtTreeMap.ext_getElem? ?_
      intro q
      rw [hn'.orphans q]
      simp
    rw [hempty]
    simp
  · intro b hb
    obtain ⟨k, hk⟩ := hdrains.came b hb
    exact hheld k b hk
  · rintro b (⟨k, hk⟩ | ⟨q, hq⟩)
    · obtain ⟨hk', hnew⟩ := hdrains.left k b hk
      exact ⟨hheld k b hk', hnew⟩
    · rw [hn'.orphans q] at hq
      cases hq

theorem drain_size (ht : t.Aligned n) (hsize : t.pending.size ≤ reorderWindow + 1)
    (hne : (t.drain now).1.frames ≠ []) : (t.drain now).2.pending.size ≤ reorderWindow := by
  have hdrained := (drain_spec ht now).1.size
  have hpos := List.length_pos_of_ne_nil hne
  omega

theorem anchor_call (hinv : o.Inv last) (hnone : o.next = none)
    (hkey : a.keyframe = true) (now : ℕ) :
    Call o last (some a) ((promote a.seq
      { o.anchor a.seq with
        pending := (o.anchor a.seq).pending.insert (o.anchor a.seq).position a }).drain now) := by
  obtain ⟨hnext, hposition, horphans, hsize, hfirst, hplaced⟩ := promote_spec a.seq
    { o.anchor a.seq with
      pending := (o.anchor a.seq).pending.insert (o.anchor a.seq).position a }
  generalize promote a.seq _ = t at hnext hposition horphans hsize hfirst hplaced ⊢
  have hplaced' : ∀ (k : ℕ) b, t.pending[k]? = some b → (k = o.position ∧ b = a) ∨
      ∃ q : UInt32, o.orphans[q]? = some b ∧ (q - a.seq).toNat ≤ reorderWindow ∧
        k = o.position + (q - a.seq).toNat := by
    intro k b hb
    rcases hplaced k b hb with hold | hpromoted
    · dsimp only [anchor] at hold
      rw [getElem?_insertKey] at hold
      split at hold
      · rename_i hk
        exact .inl ⟨hk.symm, (Option.some.inj hold).symm⟩
      · simp at hold
    · exact .inr hpromoted
  have haligned : t.Aligned a.seq := by
    refine ⟨hnext, ?_, ?_⟩
    · intro k b hb
      rw [show t.position = o.position from hposition]
      rcases hplaced' k b hb with ⟨rfl, rfl⟩ | ⟨q, hq, hle, rfl⟩
      · have hlt := b.seq.toNat_lt
        refine ⟨le_rfl, by omega, ?_⟩
        omega
      · have hname := hinv.named q b hq
        have hsub := UInt32.toNat_sub q a.seq
        have hlt := a.seq.toNat_lt
        have hltq := q.toNat_lt
        rw [reorderWindow] at hle
        refine ⟨by omega, by omega, ?_⟩
        rw [hname]
        omega
    · intro q
      rw [horphans]
      simp
  have hhead : t.pending[t.position]? = some a := by
    rw [hfirst]
    dsimp only [anchor]
    rw [getElem?_insertKey, if_pos rfl]
  obtain ⟨hdrains, -, hstart⟩ := drain_spec haligned now
  obtain ⟨rest, hframes⟩ := hstart a hhead
  have hne : (t.drain now).1.frames ≠ [] := by
    rw [hframes]
    exact List.cons_ne_nil _ _
  refine drain_call haligned ?_ ?_ (fun hnil => absurd hnil hne) (drain_size haligned ?_ hne)
  · intro k b hb
    rcases hplaced' k b hb with ⟨-, rfl⟩ | ⟨q, hq, -⟩
    · exact .inr rfl
    · exact .inl (.inr ⟨q, hq⟩)
  · have hconsecutive := hdrains.consecutive
    rw [hframes] at hconsecutive ⊢
    exact .anchored a rest hnone rfl hkey hconsecutive
  · have horphansSize := hinv.orphansSize
    have hone : ((o.anchor a.seq).pending.insert (o.anchor a.seq).position a).size ≤
        (o.anchor a.seq).pending.size + 1 := ExtTreeMap.size_insert_le
    have hzero : (o.anchor a.seq).pending.size = 0 := by simp [anchor]
    have hsame : (o.anchor a.seq).orphans.size = o.orphans.size := rfl
    dsimp only at hsize
    omega

theorem skip_call (hinv : o.Inv last) (hn : o.next = some n)
    (hkey : a.keyframe = true) (hahead : (a.seq - n).toNat < (2 ^ 32 - 1) / 2) (now : ℕ) :
    Call o last (some a) (drain now { o with
      position := o.position + (a.seq - n).toNat
      next := some a.seq
      gapSince := none
      pending := (o.pending.filter fun place _ =>
        decide (place ≥ o.position + (a.seq - n).toNat)).insert
          (o.position + (a.seq - n).toNat) a }) := by
  obtain ⟨hold, -⟩ := hinv.anchored n hn
  have hplaced : ∀ (k : ℕ) b, ((o.pending.filter fun place _ =>
      decide (place ≥ o.position + (a.seq - n).toNat)).insert
        (o.position + (a.seq - n).toNat) a)[k]? = some b →
      (k = o.position + (a.seq - n).toNat ∧ b = a) ∨
        (o.position + (a.seq - n).toNat ≤ k ∧ o.pending[k]? = some b) := by
    intro k b hb
    rw [getElem?_insertKey] at hb
    split at hb
    · rename_i hk
      exact .inl ⟨hk.symm, (Option.some.inj hb).symm⟩
    · obtain ⟨hb, hge⟩ := getElem?_filterKey
        hb
      exact .inr ⟨of_decide_eq_true hge, hb⟩
  have hsize : ((o.pending.filter fun place _ =>
      decide (place ≥ o.position + (a.seq - n).toNat)).insert
        (o.position + (a.seq - n).toNat) a).size ≤ reorderWindow + 1 := by
    have hfilter : (o.pending.filter fun place _ =>
      decide (place ≥ o.position + (a.seq - n).toNat)).size ≤ o.pending.size :=
      ExtTreeMap.size_filter_le_size
    have hpending := hinv.pendingSize
    refine le_trans ExtTreeMap.size_insert_le ?_
    omega
  have hhead : ((o.pending.filter fun place _ =>
      decide (place ≥ o.position + (a.seq - n).toNat)).insert
        (o.position + (a.seq - n).toNat) a)[o.position + (a.seq - n).toNat]? = some a := by
    rw [getElem?_insertKey, if_pos rfl]
  generalize (o.pending.filter _).insert _ a = pending at hplaced hsize hhead ⊢
  have hsub := UInt32.toNat_sub a.seq n
  have hltn := n.toNat_lt
  have hlt := a.seq.toNat_lt
  have haligned : Aligned { o with
      position := o.position + (a.seq - n).toNat
      next := some a.seq
      gapSince := none
      pending := pending } a.seq := by
    refine ⟨rfl, ?_, hold.orphans⟩
    intro k b hb
    dsimp only at hb ⊢
    rcases hplaced k b hb with ⟨rfl, rfl⟩ | ⟨hle, hb⟩
    · refine ⟨le_rfl, by omega, ?_⟩
      omega
    · obtain ⟨-, hlt', hseq⟩ := hold.placed k b hb
      refine ⟨hle, by omega, ?_⟩
      rw [hseq]
      omega
  obtain ⟨hdrains, -, hstart⟩ := drain_spec haligned now
  obtain ⟨rest, hframes⟩ := hstart a hhead
  have hne : (drain now { o with
      position := o.position + (a.seq - n).toNat
      next := some a.seq
      gapSince := none
      pending := pending }).1.frames ≠ [] := by
    rw [hframes]
    exact List.cons_ne_nil _ _
  refine drain_call haligned ?_ ?_ (fun hnil => absurd hnil hne) (drain_size haligned hsize hne)
  · intro k b hb
    rcases hplaced k b hb with ⟨-, rfl⟩ | ⟨-, hb⟩
    · exact .inr rfl
    · exact .inl (.inl ⟨k, hb⟩)
  · have hconsecutive := hdrains.consecutive
    rw [hframes] at hconsecutive ⊢
    exact .skipped n a rest hn rfl hkey hahead hconsecutive

theorem insert_aligned (hinv : o.Inv last) (hn : o.next = some n)
    (hahead : (a.seq - n).toNat < (2 ^ 32 - 1) / 2) :
    Aligned { o with pending := o.pending.insert (o.position + (a.seq - n).toNat) a } n := by
  obtain ⟨hold, -⟩ := hinv.anchored n hn
  refine ⟨hn, ?_, hold.orphans⟩
  intro k b hb
  dsimp only at hb ⊢
  rw [getElem?_insertKey] at hb
  split at hb
  · rename_i hk
    rw [← Option.some.inj hb]
    have hsub := UInt32.toNat_sub a.seq n
    have hltn := n.toNat_lt
    have hlt := a.seq.toNat_lt
    refine ⟨by omega, by omega, ?_⟩
    omega
  · exact hold.placed k b hb

theorem delta_call (hinv : o.Inv last) (hn : o.next = some n)
    (hahead : (a.seq - n).toNat < (2 ^ 32 - 1) / 2) (now : ℕ)
    (hfit : (drain now { o with
      pending := o.pending.insert (o.position + (a.seq - n).toNat) a }).2.pending.size ≤
        reorderWindow) :
    Call o last (some a) (drain now { o with
      pending := o.pending.insert (o.position + (a.seq - n).toNat) a }) := by
  have haligned := insert_aligned hinv hn hahead
  refine drain_call haligned ?_ ?_ ?_ hfit
  · intro k b hb
    dsimp only at hb
    rw [getElem?_insertKey] at hb
    split at hb
    · exact .inr hb.symm
    · exact .inl (.inl ⟨k, hb⟩)
  · exact .onward n _ hn (drain_spec haligned now).1.consecutive
  · intro _
    obtain ⟨-, b, hb, hbn⟩ := hinv.anchored n hn
    rw [hb, Option.map_some, hbn]

/-- **An arrival.** -/
theorem acceptAt_call (hinv : o.Inv last) (a : Arrival) (now : ℕ) :
    Call o last (some a) (o.acceptAt a.seq a.keyframe a now) := by
  unfold acceptAt
  split
  · rename_i hn
    split
    · rename_i hdelta
      -- held until a keyframe comes
      obtain ⟨hnext, hpending, -⟩ := hold_rest a.seq a
      refine ask_call ⟨?_, ?_, ?_, ?_, hold_size a.seq a hinv.orphansSize⟩ ?_ ?_ now
      · rw [hpending]
        exact fun _ => hinv.unanchored hn
      · intro n hn'
        rw [hnext, hn] at hn'
        cases hn'
      · intro q b hb
        rcases hold_orphans hb with hb | ⟨rfl, rfl⟩
        · exact hinv.named q b hb
        · rfl
      · rw [hpending]
        exact hinv.pendingSize
      · intro _ b hb
        rw [Option.some.inj hb]
        simpa using hdelta
      · rintro b (⟨k, hk⟩ | ⟨q, hq⟩)
        · rw [hpending] at hk
          exact .inl (.inl ⟨k, hk⟩)
        · rcases hold_orphans hq with hq | ⟨-, rfl⟩
          · exact .inl (.inr ⟨q, hq⟩)
          · exact .inr rfl
    · rename_i hkey
      exact anchor_call hinv hn (by simpa using hkey) now
  · rename_i n hn
    have hquiet : o.next = none → ∀ b, some b = some a → b.keyframe = false := by
      intro hnone
      rw [hn] at hnone
      cases hnone
    dsimp only
    split
    · exact still_call hinv hquiet
    rename_i hahead
    split
    · rename_i hkey
      exact skip_call hinv hn hkey (Nat.lt_of_not_le hahead) now
    · split
      · exact reset_call _ last hquiet now
      · rename_i hfit
        exact delta_call hinv hn (Nat.lt_of_not_le hahead) now (Nat.le_of_not_lt hfit)

theorem recoverAt_call (hinv : o.Inv last) (now : ℕ) : Call o last none (o.recoverAt now) := by
  have hquiet : o.next = none → ∀ a, some a = (none : Option Arrival) → a.keyframe = false := nofun
  unfold recoverAt
  split
  · exact ask_call hinv hquiet (fun b hb => .inl hb) now
  split
  · exact reset_call o last hquiet now
  · exact still_call hinv hquiet

theorem decodeFailed_call (o : VideoOrder Arrival) (last : Option UInt32) (now : ℕ) :
    Call o last none (o.decodeFailed now) := by
  refine reset_call o last ?_ now
  intro _ a ha
  cases ha

/-! ### What `drain` returned -/

/-- The buffer `accept_at` drains, if it drains one. -/
def drained {α : Type} (seq : UInt32) (keyframe : Bool) (payload : α) (o : VideoOrder α) :
    Option (VideoOrder α) :=
  match o.next with
  | none =>
    if !keyframe then none
    else some (promote seq
      { o.anchor seq with
        pending := (o.anchor seq).pending.insert (o.anchor seq).position payload })
  | some next =>
    let ahead := (seq - next).toNat
    if ahead ≥ (2 ^ 32 - 1) / 2 then none
    else if keyframe then
      some { o with
        position := o.position + ahead
        next := some seq
        gapSince := none
        pending := (o.pending.filter fun place _ => decide (place ≥ o.position + ahead)).insert
          (o.position + ahead) payload }
    else some { o with pending := o.pending.insert (o.position + ahead) payload }

/-- What `drain` returns is what `accept_at` returns, unless the buffer is still
over its limit. -/
theorem acceptAt_drained {α : Type} {o t : VideoOrder α} {seq : UInt32} {keyframe : Bool}
    {payload : α} (h : o.drained seq keyframe payload = some t) (now : ℕ) :
    o.acceptAt seq keyframe payload now =
      if o.next.isSome && !keyframe && (t.drain now).2.pending.size > reorderWindow then
        (t.drain now).2.reset now
      else t.drain now := by
  unfold drained at h
  unfold acceptAt
  cases hn : o.next with
  | none =>
    rw [hn] at h
    dsimp only at h ⊢
    split at h
    · cases h
    · rename_i hkey
      rw [if_neg hkey]
      cases h
      rfl
  | some n =>
    rw [hn] at h
    dsimp only at h ⊢
    split at h
    · cases h
    rename_i hahead
    rw [if_neg hahead]
    split at h
    · rename_i hkey
      rw [if_pos hkey]
      cases h
      rw [hkey]
      rfl
    · rename_i hkey
      rw [if_neg hkey]
      cases h
      have hfalse : keyframe = false := by simpa using hkey
      rw [hfalse]
      simp

/-- No frame that `drain` returned is discarded. -/
theorem acceptAt_frames (hinv : o.Inv last) (h : o.drained a.seq a.keyframe a = some t) (now : ℕ) :
    (o.acceptAt a.seq a.keyframe a now).1.frames = (t.drain now).1.frames := by
  rw [acceptAt_drained h]
  split
  · rename_i hover
    simp only [Bool.and_eq_true, decide_eq_true_eq] at hover
    obtain ⟨⟨hsome, hdelta⟩, hsize⟩ := hover
    obtain ⟨n, hn⟩ := Option.isSome_iff_exists.mp hsome
    -- at most one frame over the limit was held, so none can have come out
    unfold drained at h
    rw [hn] at h
    dsimp only at h
    split at h
    · cases h
    rename_i hahead
    rw [if_neg (by simpa using hdelta)] at h
    have haligned := insert_aligned hinv hn (Nat.lt_of_not_le hahead)
    rw [hn] at haligned
    have hbound : (o.pending.insert (o.position + (a.seq - n).toNat) a).size ≤ o.pending.size + 1 :=
      ExtTreeMap.size_insert_le
    have hpending := hinv.pendingSize
    cases h
    have hdrain := (drain_spec haligned now).1.size
    dsimp only at hdrain
    have hnil : (drain now { o with
        next := some n
        pending := o.pending.insert (o.position + (a.seq - n).toNat) a }).1.frames = [] := by
      refine List.eq_nil_of_length_eq_zero ?_
      omega
    rw [hnil]
    unfold reset ask
    split
    · rfl
    · rfl
  · rfl

/-! ### How far the position goes -/

theorem position_ask (o : VideoOrder Arrival) (now : ℕ) : (o.ask now).2.position = o.position := by
  unfold ask
  split <;> rfl

theorem position_drainLoop_le (fuel : ℕ) (o : VideoOrder Arrival) (frames : List Arrival) :
    (drainLoop fuel o frames).1.position ≤ o.position + fuel := by
  induction fuel generalizing o frames with
  | zero => exact le_rfl
  | succ fuel ih =>
    unfold drainLoop
    split
    · exact Nat.le_add_right _ _
    · next payload _ =>
      have h := ih
        { o with
          pending := o.pending.erase o.position
          position := o.position + 1
          next := some (o.next.getD 0 + 1) } (frames ++ [payload])
      dsimp only at h
      omega

theorem position_drain_le (o : VideoOrder Arrival) (now : ℕ) :
    (o.drain now).2.position ≤ o.position + o.pending.size := by
  have h := position_drainLoop_le o.pending.size o []
  unfold drain
  generalize drainLoop o.pending.size o [] = result at h ⊢
  dsimp only
  split
  · exact h
  · split <;> exact h

theorem drained_le (hinv : o.Inv last) (h : o.drained a.seq a.keyframe a = some t) :
    t.position + t.pending.size ≤ o.position + 2 ^ 32 := by
  have hpending := hinv.pendingSize
  have horphans := hinv.orphansSize
  simp only [reorderWindow] at hpending horphans
  unfold drained at h
  split at h
  · split at h
    · cases h
    · cases h
      obtain ⟨-, hposition, -, hsize, -⟩ := promote_spec a.seq
        { o.anchor a.seq with
          pending := (o.anchor a.seq).pending.insert (o.anchor a.seq).position a }
      have hone : ((o.anchor a.seq).pending.insert (o.anchor a.seq).position a).size ≤
          (o.anchor a.seq).pending.size + 1 := ExtTreeMap.size_insert_le
      have hzero : (o.anchor a.seq).pending.size = 0 := by simp [anchor]
      have hsame : (o.anchor a.seq).orphans.size = o.orphans.size := rfl
      have hstill : (o.anchor a.seq).position = o.position := rfl
      dsimp only at hposition hsize ⊢
      omega
  · next next _ =>
    dsimp only at h
    split at h
    · cases h
    · next hahead =>
      split at h
      · cases h
        dsimp only
        generalize (a.seq - next).toNat = ahead at hahead ⊢
        have hfilter : (o.pending.filter fun place _ =>
            decide (place ≥ o.position + ahead)).size ≤ o.pending.size :=
          ExtTreeMap.size_filter_le_size
        have hinsert : ((o.pending.filter fun place _ =>
            decide (place ≥ o.position + ahead)).insert (o.position + ahead) a).size ≤
              (o.pending.filter fun place _ => decide (place ≥ o.position + ahead)).size + 1 :=
          ExtTreeMap.size_insert_le
        omega
      · cases h
        have hinsert : (o.pending.insert (o.position + (a.seq - next).toNat) a).size ≤
            o.pending.size + 1 := ExtTreeMap.size_insert_le
        dsimp only
        omega

theorem position_acceptAt_le (hinv : o.Inv last) (a : Arrival) (now : ℕ) :
    (o.acceptAt a.seq a.keyframe a now).2.position ≤ o.position + 2 ^ 32 := by
  cases h : o.drained a.seq a.keyframe a with
  | some t =>
    have hdrained := drained_le hinv h
    have hdrain := position_drain_le t now
    rw [acceptAt_drained h]
    split
    · rw [reset, position_ask]
      exact hdrain.trans hdrained
    · exact hdrain.trans hdrained
  | none =>
    have hsame : (o.acceptAt a.seq a.keyframe a now).2.position = o.position := by
      unfold drained at h
      unfold acceptAt
      split at h
      · next hnone =>
        split at h
        · next hkey =>
          simp only [hnone, if_pos hkey]
          rw [position_ask, (hold_rest a.seq a).2.2]
        · cases h
      · next next hsome =>
        dsimp only at h
        split at h
        · next hahead =>
          simp only [hsome, if_pos hahead]
        · split at h <;> cases h
    omega

end VideoOrder

end NebulaDesk
