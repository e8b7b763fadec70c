/-
What is outstanding fits.

The permits of the callers bound the weight of what an end retains, and what the
other end holds is among what is retained.  `Weighed` says where every permit
and every byte of an inbox is; `bytes_le` is the room it leaves for a record
that is not acknowledged.
-/
import NebulaDesk.Multipath.Delivery

namespace NebulaDesk

namespace Multipath

open Shared Relation

/-! ### Sums -/

theorem sum_map_le_of_subset {l l' : List ℕ} (hl : l.Nodup) (hsub : l ⊆ l') (f : ℕ → ℕ) :
    (l.map f).sum ≤ (l'.map f).sum := by
  obtain ⟨k, hperm, hk⟩ := List.subperm_of_subset hl hsub
  calc (l.map f).sum = (k.map f).sum := (hperm.symm.map f).sum_eq
    _ ≤ (l'.map f).sum := (hk.map f).sum_le_sum (by simp)

theorem sum_map_update {α : Type} [DecidableEq α] {l : List α} (hl : l.Nodup) {a : α} (ha : a ∈ l)
    (f : α → ℕ) (v : ℕ) : (l.map (Function.update f a v)).sum + f a = (l.map f).sum + v := by
  induction l with
  | nil => cases ha
  | cons b l ih =>
    obtain ⟨hb, hl⟩ := List.nodup_cons.mp hl
    simp only [List.map_cons, List.sum_cons]
    by_cases hab : a = b
    · subst hab
      have hrest : l.map (Function.update f a v) = l.map f :=
        List.map_congr_left fun x hx => Function.update_of_ne (by rintro rfl; exact hb hx) _ _
      rw [hrest, Function.update_self]
      omega
    · have := ih hl ((List.mem_cons.mp ha).resolve_left hab)
      rw [Function.update_of_ne (Ne.symm hab)]
      omega

def heldBytes (held : List (ℕ × Incoming)) : ℕ := (held.map (·.2.payload.length)).sum

theorem heldBytes_filter {held : List (ℕ × Incoming)} (hnodup : (held.map Prod.fst).Nodup) {s : ℕ}
    {m : Incoming} (hm : (s, m) ∈ held) :
    heldBytes (held.filter (·.1 ≠ s)) + m.payload.length = heldBytes held := by
  induction held with
  | nil => cases hm
  | cons x held ih =>
    rw [List.map_cons, List.nodup_cons] at hnodup
    rcases List.mem_cons.mp hm with rfl | hm
    · have hrest : held.filter (·.1 ≠ s) = held := by
        rw [List.filter_eq_self]
        intro y hy
        have hne : y.1 ≠ s := fun hys => hnodup.1 (List.mem_map.mpr ⟨y, hy, hys⟩)
        simpa using hne
      rw [List.filter_cons_of_neg (by simp), hrest]
      simp only [heldBytes, List.map_cons, List.sum_cons]
      omega
    · have hne : x.1 ≠ s := fun hxs => hnodup.1 (List.mem_map.mpr ⟨_, hm, hxs.symm⟩)
      have := ih hnodup.2 hm
      rw [List.filter_cons_of_pos (by simpa using hne)]
      simp only [heldBytes, List.map_cons, List.sum_cons] at this ⊢
      omega

namespace Link

variable {c : Channel} {l : Link}

theorem pending_weight_eq (hg : l.Genuine c) (hb : l.Bounded) :
    (l.pending.map fun p => p.request.weight).sum =
      ((List.range' (l.records.length - l.pending.length) l.pending.length).map fun s =>
        ((l.records[s]?).map Request.weight).getD 0).sum := by
  have hrun : l.pending.map (·.sequence) = _ := hb.run
  rw [← hrun, List.map_map]
  refine congrArg List.sum (List.map_congr_left fun p hp => ?_)
  simp [hg.pending p hp]

theorem weight_le (hg : l.Genuine c) (hb : l.Bounded)
    (hw : (l.pending.map fun p => p.request.weight).sum ≤ byteWindow) {keys : List ℕ}
    (hnodup : keys.Nodup) (hkeys : ∀ s ∈ keys, l.acknowledged ≤ s ∧ s < l.records.length) :
    (keys.map fun s => ((l.records[s]?).map Request.weight).getD 0).sum ≤ byteWindow := by
  rw [pending_weight_eq hg hb] at hw
  refine le_trans (sum_map_le_of_subset hnodup (fun s hs => ?_) _) hw
  obtain ⟨hge, hlt⟩ := hkeys s hs
  have hbase := hb.base
  have hret := hb.retained
  rw [List.mem_range'_1]
  omega

theorem heldBytes_le (hg : l.Genuine c) (hb : l.Bounded)
    (hw : (l.pending.map fun p => p.request.weight).sum ≤ byteWindow) {held : List (ℕ × Incoming)}
    (hnodup : (held.map Prod.fst).Nodup)
    (hheld : ∀ x ∈ held, l.received ≤ x.1 ∧ ∃ r, l.records[x.1]? = some r ∧
      x.2.payload = r.payload) : heldBytes held ≤ byteWindow := by
  have hle : heldBytes held ≤ ((held.map Prod.fst).map fun s =>
      ((l.records[s]?).map Request.weight).getD 0).sum := by
    rw [heldBytes, List.map_map]
    refine List.sum_le_sum fun x hx => ?_
    obtain ⟨-, r, hr, hpayload⟩ := hheld x hx
    simp [hr, hpayload, Request.weight]
  refine hle.trans (weight_le hg hb hw hnodup fun s hs => ?_)
  obtain ⟨x, hx, rfl⟩ := List.mem_map.mp hs
  obtain ⟨hge, r, hr, -⟩ := hheld x hx
  exact ⟨hb.acked.trans hge, (List.getElem?_eq_some_iff.mp hr).1⟩

theorem unacknowledged_weight_le (hg : l.Genuine c) (hb : l.Bounded)
    (hw : (l.pending.map fun p => p.request.weight).sum ≤ byteWindow) :
    ((l.records.drop l.acknowledged).map Request.weight).sum ≤ byteWindow := by
  have heq : (l.records.drop l.acknowledged).map Request.weight =
      (List.range' l.acknowledged (l.records.length - l.acknowledged)).map fun s =>
        ((l.records[s]?).map Request.weight).getD 0 := by
    refine List.ext_getElem? fun i => ?_
    rw [List.getElem?_map, List.getElem?_drop, List.getElem?_map]
    by_cases hi : i < l.records.length - l.acknowledged
    · rw [List.getElem?_range' hi]
      have hlt : l.acknowledged + i < l.records.length := by omega
      simp [List.getElem?_eq_getElem hlt]
    · have hge : l.records.length ≤ l.acknowledged + i := by omega
      rw [List.getElem?_eq_none hge, List.getElem?_eq_none (by simpa using Nat.le_of_not_lt hi)]
      rfl
  rw [heq]
  refine weight_le hg hb hw (List.nodup_range' ..) fun s hs => ?_
  rw [List.mem_range'_1] at hs
  omega

end Link

namespace System

variable {g : Setting} {P : TransportError → Prop} {sys sys' : System} {e : Bool} {c : Channel}

/-! ### Where the bytes are -/

/-- Every permit and every byte of the inbox is accounted for. -/
structure Weighed (sys : System) : Prop where
  accounted : ∀ e, ∀ c ∈ reliable, ((sys.ends e).writers c).Accounted
  bytes : ∀ e, (sys.ends e).inbox.bytes =
    (reliable.map fun c => heldBytes ((sys.ends e).inbox.pending c)).sum

theorem weighed_start (native : Bool → Native) (now : ℕ) : (start native now).Weighed :=
  ⟨fun _ _ _ => Writer.accounted_new, fun _ => rfl⟩

theorem Weighed.commit {t : End} (h : sys.Weighed)
    (haccounted : ∀ c ∈ reliable, (t.writers c).Accounted)
    (hbytes : t.inbox.bytes = (reliable.map fun c => heldBytes (t.inbox.pending c)).sum) :
    (sys.commit e t).Weighed := by
  refine ⟨fun b => ?_, fun b => ?_⟩
  all_goals rcases either b e with rfl | rfl
  · rw [commit_self]
    exact haccounted
  · rw [commit_other]
    exact h.accounted _
  · rw [commit_self]
    exact hbytes
  · rw [commit_other]
    exact h.bytes _

theorem Weighed.setWriter {t : End} {w : Writer} (h : sys.Weighed) (hw : w.Accounted)
    (hwriters : t.writers = Function.update (sys.ends e).writers c w)
    (hinbox : t.inbox = (sys.ends e).inbox) : (sys.commit e t).Weighed := by
  refine h.commit ?_ ?_
  · intro c' hc'
    rw [hwriters]
    by_cases hcc : c' = c
    · subst hcc
      rwa [Function.update_self]
    · rw [Function.update_of_ne hcc]
      exact h.accounted e c' hc'
  · rw [hinbox]
    exact h.bytes e

theorem sum_heldBytes_update (hc : c ∈ reliable) (pending : Channel → List (ℕ × Incoming))
    (held : List (ℕ × Incoming)) :
    (reliable.map fun c' => heldBytes (Function.update pending c held c')).sum +
      heldBytes (pending c) =
      (reliable.map fun c' => heldBytes (pending c')).sum + heldBytes held := by
  have heq : (fun c' => heldBytes (Function.update pending c held c')) =
      Function.update (fun c' => heldBytes (pending c')) c (heldBytes held) := by
    funext c'
    by_cases hcc : c' = c
    · subst hcc
      simp
    · simp [hcc]
  rw [heq]
  exact sum_map_update (by decide) hc _ _

theorem Weighed.steps (h : sys.Weighed) (hl : sys.Linked) (hs : Steps g P sys sys') :
    sys'.Weighed := by
  cases hs with
  | tick | conn | arrive | lossy => exact ⟨h.accounted, h.bytes⟩
  | route e | mediaLost e | failed e | notice e | report e | consume e =>
    exact h.commit (h.accounted e) (h.bytes e)
  | attach e native s id hs =>
    have := h.commit (e := e) (t := { sys.ends e with shared := s }) (h.accounted e) (h.bytes e)
    exact ⟨this.accounted, this.bytes⟩
  | callers e c w hc hpending hsending haccounted =>
    exact h.setWriter (haccounted (h.accounted e c hc)) rfl rfl
  | wake e c hc hlive =>
    have hretire := (h.accounted e c hc).retire ((sys.ends e).shared.acknowledged c)
    unfold End.wake
    dsimp only
    split
    · exact h.setWriter hretire rfl rfl
    · exact h.setWriter (hretire.attempt _) rfl rfl
  | number e c request rest hc hqueue hroom hmax =>
    exact h.setWriter ((h.accounted e c hc).number hqueue _) rfl rfl
  | sealCopy e c i x hc hx hroom t ht =>
    have hacc := h.accounted e c hc
    have hw : ({ (sys.ends e).writers c with
        sending := ((sys.ends e).writers c).sending.set i ⟨x, true⟩ } : Writer).Accounted :=
      { hacc with }
    have : (sys.commit e t).Weighed := by
      subst ht
      exact h.setWriter hw rfl rfl
    exact ⟨this.accounted, this.bytes⟩
  | complete e c i x s hc hx hdone hs =>
    exact h.setWriter ((h.accounted e c hc).complete i) rfl rfl
  | mediaSent e c header payload y hc hy t ht | forward e k i id r hr t ht =>
    have : (sys.commit e t).Weighed := by
      subst ht
      exact h.commit (h.accounted e) (h.bytes e)
    exact ⟨this.accounted, this.bytes⟩
  | received e id m rest t r s hevents ht hres hs =>
    refine h.commit ?_ ?_
    · rw [show t.writers = (sys.ends e).writers from ht.writers]
      exact h.accounted e
    · cases ht.inbox with
      | same _ hpending hbytes _ =>
        rw [hpending, hbytes]
        exact h.bytes e
      | insert sequence epoch payload hc hparse hle hnew _ hpending hbytes =>
        have hsum := sum_heldBytes_update hc (sys.ends e).inbox.pending
          ((sequence, unwrap sequence payload m) :: (sys.ends e).inbox.pending m.channel)
        have hold : (sys.ends e).inbox.bytes = _ := h.bytes e
        have hcons : heldBytes ((sequence, unwrap sequence payload m) ::
            (sys.ends e).inbox.pending m.channel) =
            payload.length + heldBytes ((sys.ends e).inbox.pending m.channel) := rfl
        dsimp only at hpending hbytes
        show t.inbox.bytes = (reliable.map fun c => heldBytes (t.inbox.pending c)).sum
        rw [hpending, hbytes]
        omega
  | deliver e c m s hm inbox hpending hbytes hs =>
    have hmem := mem_of_lookup hm
    have hc := (hl.filed e c _ hmem).2
    have hnodup : (((sys.ends e).inbox.pending c).map Prod.fst).Nodup := by
      have := (hl.bounded (!e) c hc).nodup
      simpa [link, End.rx] using this
    have hsum := sum_heldBytes_update hc (sys.ends e).inbox.pending
      (((sys.ends e).inbox.pending c).filter (·.1 ≠ (sys.ends e).shared.received c))
    have hfilter := heldBytes_filter hnodup hmem
    refine h.commit (h.accounted e) ?_
    have hold : (sys.ends e).inbox.bytes = _ := h.bytes e
    rw [hpending, hbytes]
    omega

theorem bytes_le (hl : sys.Linked) (hw : sys.Weighed) (hc : c ∈ reliable) {sequence : ℕ}
    {r : Request} (hr : ((sys.ends !e).records c)[sequence]? = some r)
    (hle : (sys.ends e).shared.received c ≤ sequence)
    (hnew : sequence ∉ ((sys.ends e).inbox.pending c).map Prod.fst) :
    (sys.ends e).inbox.bytes + r.payload.length ≤ byteWindow * reliable.length := by
  have hself : ∀ c', (sys.link (!e) c').toRx = (sys.ends e).rx c' := by simp [link]
  have hlink : ∀ c' ∈ reliable, ∀ held : List (ℕ × Incoming), (held.map Prod.fst).Nodup →
      (∀ x ∈ held, (sys.ends e).shared.received c' ≤ x.1 ∧ ∃ r,
        ((sys.ends !e).records c')[x.1]? = some r ∧ x.2.payload = r.payload) →
      heldBytes held ≤ byteWindow := by
    intro c' hc' held hnodup hheld
    refine Link.heldBytes_le (hl.genuine (!e) c' hc') (hl.bounded (!e) c' hc')
      (hw.accounted (!e) c' hc').pending_weight_le hnodup fun x hx => ?_
    rw [hself]
    exact hheld x hx
  have hnodup : ∀ c' ∈ reliable, (((sys.ends e).inbox.pending c').map Prod.fst).Nodup := by
    intro c' hc'
    have := (hl.bounded (!e) c' hc').nodup
    rw [hself] at this
    exact this
  have hheld : ∀ c' ∈ reliable, ∀ x ∈ (sys.ends e).inbox.pending c',
      (sys.ends e).shared.received c' ≤ x.1 ∧ ∃ r,
        ((sys.ends !e).records c')[x.1]? = some r ∧ x.2.payload = r.payload := by
    intro c' hc' x hx
    have hx : x ∈ (sys.link (!e) c').held := by
      rw [hself]
      exact hx
    have hge := (hl.bounded (!e) c' hc').held x hx
    rw [hself] at hge
    obtain ⟨r, hr, hstamp⟩ := (hl.genuine (!e) c' hc').held x hx
    exact ⟨hge, r, hr, by rw [hstamp]; rfl⟩
  -- Count the record as if it were held already.
  have hsum := sum_heldBytes_update hc (sys.ends e).inbox.pending
    ((sequence, ⟨c, r.header, r.payload⟩) :: (sys.ends e).inbox.pending c)
  have hcons : heldBytes ((sequence, ⟨c, r.header, r.payload⟩) :: (sys.ends e).inbox.pending c) =
      r.payload.length + heldBytes ((sys.ends e).inbox.pending c) := rfl
  have hbytes : (sys.ends e).inbox.bytes = _ := hw.bytes e
  have hall : (reliable.map fun c' => heldBytes (Function.update (sys.ends e).inbox.pending c
      ((sequence, ⟨c, r.header, r.payload⟩) :: (sys.ends e).inbox.pending c) c')).sum ≤
      (reliable.map fun _ => byteWindow).sum := by
    refine List.sum_le_sum fun c' hc' => ?_
    by_cases hcc : c' = c
    · subst hcc
      rw [Function.update_self]
      refine hlink c' hc' _ ?_ ?_
      · rw [List.map_cons, List.nodup_cons]
        exact ⟨hnew, hnodup c' hc'⟩
      · intro x hx
        rcases List.mem_cons.mp hx with rfl | hx
        · exact ⟨hle, r, hr, rfl⟩
        · exact hheld c' hc' x hx
    · rw [Function.update_of_ne hcc]
      exact hlink c' hc' _ (hnodup c' hc') (hheld c' hc')
  have hconst : (reliable.map fun _ => byteWindow).sum = byteWindow * reliable.length := by
    rw [List.map_const', List.sum_replicate, smul_eq_mul, mul_comm]
  omega

end System

end Multipath

end NebulaDesk
