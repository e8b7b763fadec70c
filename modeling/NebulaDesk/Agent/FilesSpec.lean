/-
What the receiver's helper commands guarantee.

A predicate on the world that survives a turn of the other programs and the
making of the download folder survives the whole search for a free name
(`freePath_spec`), and a name found lies directly in the folder and belongs to
no active receive (`Free`).
-/
import NebulaDesk.Agent.Files

namespace NebulaDesk

open Std (ExtTreeMap)
open Cmd

/-- A world predicate that a call without effect cannot break. -/
def Stable (K : World → Prop) : Prop := ∀ w, K w → K w.next

namespace FileTransfers

variable {K : World → Prop}

theorem getElem?_receiving_insert (ft : FileTransfers) (id a : ℕ) (r : Receiving) :
    (ft.receiving.insert id r)[a]? = if id = a then some r else ft.receiving[a]? := by
  simp [ExtTreeMap.getElem?_insert]

theorem getElem?_receiving_erase (ft : FileTransfers) (id a : ℕ) :
    (ft.receiving.erase id)[a]? = if id = a then none else ft.receiving[a]? := by
  simp [ExtTreeMap.getElem?_erase]

theorem getElem?_sending_insert (ft : FileTransfers) (id a : ℕ) (s : Sending) :
    (ft.sending.insert id s)[a]? = if id = a then some s else ft.sending[a]? := by
  simp [ExtTreeMap.getElem?_insert]

theorem getElem?_sending_erase (ft : FileTransfers) (id a : ℕ) :
    (ft.sending.erase id)[a]? = if id = a then none else ft.sending[a]? := by
  simp [ExtTreeMap.getElem?_erase]

@[simp] theorem report_receiving (ft : FileTransfers) (u : TransferUpdate) :
    (ft.report u).receiving = ft.receiving := rfl

theorem triple_call {α : Type} {act : Sys α} {Q : α → World → Prop} (hK : Stable K)
    (hact : Triple K act Q (fun _ => K)) : Triple K (call act) Q (fun _ => K) := by
  intro w hw
  unfold call
  split
  · exact ⟨fun a ha => (by cases ha), fun e _ => hK w hw⟩
  · exact hact w.next (hK w hw)

theorem triple_symlinkMetadata (hK : Stable K) (path : PathBuf) :
    Triple K (symlinkMetadata path) (fun _ => K) (fun _ => K) := by
  refine triple_call hK fun w hw => ?_
  split <;> exact ⟨fun a _ => hw, fun e _ => hw⟩

theorem triple_createDirAll (hK : Stable K) {path : PathBuf}
    (hfolder : ∀ w, ∀ p ∈ path.ancestors, K w → K (makeFolder w p)) :
    Triple K (createDirAll path) (fun _ => K) (fun _ => K) := by
  have hfold : ∀ (l : List PathBuf), (∀ p ∈ l, p ∈ path.ancestors) → ∀ w, K w →
      K (l.foldl makeFolder w) := by
    intro l
    induction l with
    | nil => exact fun _ w hw => hw
    | cons p l ih =>
      intro hl w hw
      exact ih (fun q hq => hl q (by simp [hq])) _ (hfolder w p (hl p (by simp)) hw)
  refine triple_call hK fun w hw => ?_
  split
  · exact ⟨fun a _ => hw, fun e _ => hw⟩
  · exact ⟨fun a _ => hfold _ (fun _ hp => hp) w hw, fun e he => by cases he⟩

/-- No active receive has this destination. -/
def Unclaimed (ft : FileTransfers) (path : PathBuf) : Prop :=
  ∀ (id : ℕ) (r : Receiving), ft.receiving[id]? = some r → r.finalPath ≠ path

theorem pathAvailable_spec (hK : Stable K) (ft : FileTransfers) (path : PathBuf) :
    Triple K (ft.pathAvailable path) (fun free w => (free = true → ft.Unclaimed path) ∧ K w)
      (fun _ => K) := by
  unfold pathAvailable
  split
  · exact Triple.pure fun w hw => ⟨by simp, hw⟩
  · rename_i hclaimed
    have hfree : ft.Unclaimed path := by
      intro id r hr heq
      refine hclaimed (List.any_eq_true.mpr ⟨(id, r), ?_, by simpa using heq⟩)
      exact ExtTreeMap.mem_toList_iff_getElem?_eq_some.mpr hr
    refine Triple.bind (Q := fun _ => K) (Triple.attempt (triple_symlinkMetadata hK path)) ?_
    intro found
    cases found with
    | ok e => exact Triple.pure fun w hw => ⟨by simp, hw⟩
    | error e =>
      exact Triple.ite (fun _ => Triple.pure fun w hw => ⟨fun _ => hfree, hw⟩)
        (fun _ => Triple.throw fun w hw => hw)

/-- A destination `free_path` may return: directly in the folder, and no other's. -/
def Free (ft : FileTransfers) (path : PathBuf) : Prop :=
  ft.downloads.Inside path ∧ ft.Unclaimed path

theorem freeNumbered_spec (hK : Stable K) (p : Platform) (ft : FileTransfers) {name : Text}
    (hname : Plain name) (ns : List ℕ) :
    Triple K (freeNumbered p ft name ns) (fun path w => ft.Free path ∧ K w) (fun _ => K) := by
  induction ns with
  | nil => exact Triple.throw fun w hw => hw
  | cons n ns ih =>
    have hplain := plain_numbered hname n
    refine Triple.bind (pathAvailable_spec hK ft _) fun free => ?_
    refine Triple.ite (fun hfree => Triple.pure fun w hw => ⟨⟨?_, hw.1 hfree⟩, hw.2⟩) fun _ => ?_
    · exact ⟨numbered name n, hplain, hplain.join p.os ft.downloads⟩
    · exact ih.consequence (fun w hw => hw.2) (fun _ _ h => h) (fun _ _ h => h)

/-- **Every name the search tries lies directly in the folder.** -/
theorem freePath_spec (hK : Stable K) (p : Platform) (ft : FileTransfers) {name : Text}
    (hname : Plain name)
    (hfolder : ∀ w, ∀ q ∈ ft.downloads.ancestors, K w → K (makeFolder w q)) :
    Triple K (freePath p ft name) (fun path w => ft.Free path ∧ K w) (fun _ => K) := by
  refine Triple.bind (triple_createDirAll hK hfolder) fun _ => ?_
  refine Triple.bind (pathAvailable_spec hK ft _) fun free => ?_
  refine Triple.ite (fun hfree => Triple.pure fun w hw => ⟨⟨?_, hw.1 hfree⟩, hw.2⟩) fun _ => ?_
  · exact ⟨name, hname, hname.join p.os ft.downloads⟩
  · exact (freeNumbered_spec hK p ft hname _).consequence (fun w hw => hw.2) (fun _ _ h => h)
      (fun _ _ h => h)

theorem plain_stagingName (env : Env) (k : ℕ) : Plain (stagingName (env.uuids k)) := by
  have hnone : ∀ c, c ∉ stagingName [] → c ∉ uuidChars → c ∉ stagingName (env.uuids k) := by
    intro c hfixed huuid hc
    simp only [stagingName, List.mem_append] at hc hfixed
    have := env.uuid_chars k c
    tauto
  refine ⟨by simp [stagingName], ⟨by simp [stagingName], by simp [stagingName]⟩,
    hnone _ (by decide) (by decide), hnone _ (by decide) (by decide),
    hnone _ (by decide) (by decide), ?_⟩
  intro c rest heq
  simp [stagingName] at heq

/-! ### The sending half leaves the receiving half alone -/

theorem sendFile_receiving (blake3 : List UInt8 → Text) (ft : FileTransfers) (now : ℕ)
    (source : Source) : (ft.sendFile blake3 now source).2.receiving = ft.receiving ∧
      (ft.sendFile blake3 now source).2.downloads = ft.downloads := by
  unfold sendFile
  split <;> exact ⟨rfl, rfl⟩

theorem pump_receiving (ft : FileTransfers) (now pick : ℕ)
    (reads : List (Except Fault (List UInt8))) :
    (ft.pump now pick reads).2.receiving = ft.receiving ∧
      (ft.pump now pick reads).2.downloads = ft.downloads := by
  unfold pump
  split
  · exact ⟨rfl, rfl⟩
  · split
    · exact ⟨rfl, rfl⟩
    · split
      · exact ⟨rfl, rfl⟩
      · split <;> exact ⟨rfl, rfl⟩

theorem onAck_receiving (ft : FileTransfers) (now : ℕ) (ack : FileAck) :
    (ft.onAck now ack).receiving = ft.receiving ∧
      (ft.onAck now ack).downloads = ft.downloads := by
  unfold onAck
  split
  · exact ⟨rfl, rfl⟩
  · split <;> exact ⟨rfl, rfl⟩

/-! ### The folder stays the same -/

theorem failReceive_downloads (ft : FileTransfers) (id : ℕ) (error : String) (w : World) :
    (ft.failReceive id error w).1.downloads = ft.downloads := by
  unfold failReceive abandon
  split
  · split <;> rfl
  · split <;> rfl

theorem finish_downloads (p : Platform) (ft : FileTransfers) (id : ℕ) (w : World) :
    (ft.finish p id w).1.2.downloads = ft.downloads := by
  unfold finish
  split
  · rfl
  · dsimp only
    split <;> rfl

theorem rejectOffer_downloads (ft : FileTransfers) (offer : FileOffer) (error : String) :
    (ft.rejectOffer offer error).downloads = ft.downloads := by
  unfold rejectOffer
  split <;> rfl

theorem onOffer_downloads (p : Platform) (ft : FileTransfers) (now : ℕ) (offer : FileOffer)
    (w : World) : (ft.onOffer p now offer w).1.2.downloads = ft.downloads := by
  unfold onOffer
  split
  · exact rejectOffer_downloads _ _ _
  split
  · exact rejectOffer_downloads _ _ _
  split
  · exact rejectOffer_downloads _ _ _
  split
  · exact rejectOffer_downloads _ _ _
  split
  · exact rejectOffer_downloads _ _ _
  · rfl

theorem onChunk_downloads (p : Platform) (ft : FileTransfers) (now : ℕ) (header : FileChunkHeader)
    (data : List UInt8) (w : World) :
    (ft.onChunk p now header data w).1.2.downloads = ft.downloads := by
  unfold onChunk
  split
  · rfl
  · rename_i r _
    split
    · exact failReceive_downloads _ _ _ _
    · split
      · exact failReceive_downloads _ _ _ _
      · rename_i w' _
        dsimp only
        split
        · have hfinish := finish_downloads p (ft.progress header.transferId (note r now
            header.offset (saturatingAdd header.offset data.length))) header.transferId w'
          split
          · rename_i heq
            rw [heq] at hfinish
            exact hfinish
          · rename_i heq
            rw [heq] at hfinish
            exact hfinish
        · rfl

theorem expireStalled_downloads (ft : FileTransfers) (now : ℕ) (w : World) :
    (ft.expireStalled now w).1.downloads = ft.downloads := by
  have hsends : ∀ (ids : List ℕ) (ft : FileTransfers),
      (ids.foldl (expireSend now) ft).downloads = ft.downloads := by
    intro ids
    induction ids with
    | nil => exact fun _ => rfl
    | cons id ids ih =>
      intro ft
      refine (ih _).trans ?_
      unfold expireSend
      split
      · rfl
      · split <;> rfl
  have hreceives : ∀ (ids : List ℕ) (st : FileTransfers × World),
      (ids.foldl (expireReceive now) st).1.downloads = st.1.downloads := by
    intro ids
    induction ids with
    | nil => exact fun _ => rfl
    | cons id ids ih =>
      intro st
      refine (ih _).trans ?_
      unfold expireReceive
      split
      · rfl
      · split
        · exact failReceive_downloads _ _ _ _
        · rfl
  exact (hreceives _ _).trans (hsends _ _)

theorem apply_downloads (p : Platform) (st : FileTransfers × World) (op : FileOp) :
    (FileTransfers.apply p st op).2.1.downloads = st.1.downloads := by
  cases op with
  | send now source => exact (sendFile_receiving p.blake3 st.1 now source).2
  | pump now pick reads => exact (pump_receiving st.1 now pick reads).2
  | ack now ack => exact (onAck_receiving st.1 now ack).2
  | offer now offer => exact onOffer_downloads p st.1 now offer st.2
  | chunk now header data => exact onChunk_downloads p st.1 now header data st.2
  | expire now => exact expireStalled_downloads st.1 now st.2

end FileTransfers

end NebulaDesk
