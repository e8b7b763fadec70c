/-
End-to-end integrity of file transfer.

A send is reported complete only when the receiver has published the very bytes
the offer's hash was computed over (`Intact`, kept by every call), and a receiver
that detects an overrun, a failing write or contents of another hash answers
with a failure, publishes nothing and removes the staging file, unless the
removal itself fails (`detected_cleans`).
-/
import NebulaDesk.Agent.DuplexRuns

namespace NebulaDesk

open FileTransfers Flight Runs

/-! ### Complete means published -/

/-- Every send reported complete stands for a published file with the bytes that
were hashed for its offer. -/
def Intact (l : Duplex) : Prop :=
  ∀ d id, (l.peer d).1.Completed id → ∃ o b path, (o, b) ∈ l.hashed d ∧ o.transferId = id ∧
    (id, path, b) ∈ l.published (!d) ∧ (path, b) ∈ publications (l.peer (!d)).2.effects

section Runs

variable {blake3 : List UInt8 → Text} {p : Bool → Platform} {env : Bool → Env}
  {fs : Bool → FileSystem} {folder : Bool → PathBuf} {permitted : Bool → Bool} {copies : Bool}
  {l : Duplex} {c : Call}

/-- A send a call reports complete was reported before, or an acknowledgement in
flight completes it. -/
theorem completed_act (h : Linked blake3 env folder l)
    (hleaves : ∀ e, (env e).LeavesFiles (folder e)) (hen : l.enabled copies c = true) {d : Bool}
    {id : ℕ} (hc : ((l.act p c).peer d).1.Completed id) :
    (l.peer d).1.Completed id ∨
      ∃ s a now, (l.view d id).sending = some s ∧ a ∈ (l.view d id).acks ∧
        ackOutcome s now a = .complete := by
  by_cases hd : d = c.side
  · subst hd
    rw [Linked.peer_act_side] at hc
    obtain ⟨e, op, copy⟩ := c
    cases op with
    | send now source =>
      exact Or.inl ((sendFile_cases (p e).blake3 (l.peer e).1 now source).2.2 id hc)
    | pump now pick reads => exact Or.inl ((pump_cases (l.peer e).1 now pick reads).2.2 id hc)
    | ack now a =>
      rcases (onAck_cases (l.peer e).1 now a).2.2 id hc with hc | ⟨rfl, s, hs, hout⟩
      · exact Or.inl hc
      · refine Or.inr ⟨s, a, now, hs, List.mem_filterMap.mpr ⟨.ack a, ?_, if_pos rfl⟩, hout⟩
        exact (Duplex.mem_of_enabled hen rfl).1
    | offer now o =>
      have hans : Answers (l.peer e).1 (l.out p ⟨e, .offer now o, copy⟩) _ :=
        h.answers hleaves (Or.inl ⟨now, o, rfl⟩)
      exact Or.inl (hans.completed id hc)
    | chunk now header data =>
      have hans : Answers (l.peer e).1 (l.out p ⟨e, .chunk now header data, copy⟩) _ :=
        h.answers hleaves (Or.inr ⟨now, header, data, rfl⟩)
      exact Or.inl (hans.completed id hc)
    | expire now =>
      exact Or.inl ((expireStalled_expires (l.peer e).1 now (l.peer e).2).completed id hc)
  · rw [Linked.peer_act_other hd] at hc
    exact Or.inl hc

theorem offered_of_sending (h : Linked blake3 env folder l) {d : Bool} {id : ℕ} {s : Sending}
    (hs : (l.view d id).sending = some s) : ∃ o b, (o, b) ∈ l.hashed d ∧ o.transferId = id := by
  by_contra hno
  have hblank := h.blank d id fun o b hob hid => hno ⟨o, b, hob, hid⟩
  rw [hblank] at hs
  cases hs

theorem published_act_mono {e : Bool} {x : ℕ × PathBuf × List UInt8} (hx : x ∈ l.published e) :
    x ∈ (l.act p c).published e := by
  by_cases he : e = c.side
  · subst he
    simp only [Duplex.act, Function.update_self, List.mem_append]
    exact Or.inl hx
  · simpa [Duplex.act, Function.update_of_ne he] using hx

/-- **Every reachable state is intact**, where no two contents have one hash. -/
theorem intact_of_reach (hleaves : ∀ e, (env e).LeavesFiles (folder e))
    (hblake : ∀ e, (p e).blake3 = blake3) (hinj : Function.Injective blake3)
    (huuid : ∀ e, Function.Injective (env e).uuids)
    (hr : Reach (Duplex.step p copies) (Duplex.start env fs folder permitted) l) : Intact l := by
  have hsound : ∀ s, Reach (Duplex.step p copies) (Duplex.start env fs folder permitted) s →
      Linked blake3 env folder s ∧
        ∀ d o b, (o, b) ∈ s.hashed d → Sound blake3 o (s.view d o.transferId) := fun s hs =>
    ⟨linked_of_reach hleaves hblake huuid hs, transfers_of_reach hleaves hblake huuid
      (fun _ _ hst => Sound.start hst) (fun _ _ _ hmax h hst => h.step hmax hst) hs⟩
  refine hr.invariant_with hsound ?_ ?_
  · rintro d id ⟨u, hu, -⟩
    cases hu
  · intro s s' c ⟨hlinked, hsnd⟩ ih hs d id hc
    obtain ⟨hen, rfl⟩ := Duplex.step_cases hs
    have hlinked' := hlinked.act hleaves hblake huuid hen
    rcases completed_act hlinked hleaves hen hc with hc | ⟨st, a, now, hst, ha, hout⟩
    · obtain ⟨o, b, path, hob, hid, hpub, -⟩ := ih d id hc
      have hpub' := published_act_mono (p := p) (c := c) hpub
      exact ⟨o, b, path, Linked.mem_hashed_of_mem hob, hid, hpub',
        hlinked'.published _ _ _ _ hpub'⟩
    · -- The acknowledgement that completes the send proves a publication of its hash.
      obtain ⟨o, b, hob, hid⟩ := offered_of_sending hlinked hst
      subst hid
      obtain ⟨contents, hmem, hhash⟩ := (hsnd d o b hob).published_of_complete hst ha hout
      obtain ⟨x, hx, hsome⟩ := List.mem_filterMap.mp hmem
      obtain ⟨xid, path, xc⟩ := x
      have heq : xid = o.transferId ∧ xc = contents := by
        by_cases hxid : xid = o.transferId
        · simpa [hxid] using hsome
        · simp [hxid] at hsome
      obtain ⟨rfl, rfl⟩ := heq
      have hbytes : xc = b := hinj (hhash.trans (hlinked.hashed d o b hob).2.2)
      subst hbytes
      have hpub' := published_act_mono (p := p) (c := c) hx
      exact ⟨o, xc, path, Linked.mem_hashed_of_mem hob, rfl, hpub',
        hlinked'.published _ _ _ _ hpub'⟩

end Runs

/-! ### A detected failure leaves nothing -/

/-- What a receiver detects when a chunk arrives. -/
inductive Detects (p : Platform) (r : Receiving) (now : ℕ) (header : FileChunkHeader)
    (data : List UInt8) (w : World) : Prop
  | overrun (h : r.size < saturatingAdd header.offset data.length)
  | write {e : Fault} (hfits : saturatingAdd header.offset data.length ≤ r.size)
      (h : (writeAt r.file header.offset data w).1 = .error e)
  | mismatch {bytes : List UInt8} (hfits : saturatingAdd header.offset data.length ≤ r.size)
      (hwrite : (writeAt r.file header.offset data w).1 = .ok ())
      (hall : (note r now header.offset (saturatingAdd header.offset data.length)).ranges.complete
        r.size = true)
      (hsync : (syncAll r.file (writeAt r.file header.offset data w).2).1 = .ok ())
      (hread : (readAll r.part (syncAll r.file (writeAt r.file header.offset data w).2).2).1 =
        .ok bytes)
      (hhash : p.blake3 bytes ≠ r.expected)

/-- The staging name is gone, or the call to remove it failed. -/
def Gone (part : PathBuf) (w : World) : Prop :=
  w.entry part = none ∨ (w.env.turns (w.tick - 1)).failure ≠ none

theorem gone_removeFile {env : Env} {folder part : PathBuf} {file k : ℕ} {w : World}
    (hq : env.LeavesStaging folder) (henv : w.env = env) (hpart : part = staging env folder k)
    (hleft : Left env folder part file w) : Gone part (removeFile part w).2 := by
  have hnext : w.next.entry part = w.entry part := by
    show ((w.env.turns w.tick).others w.fs).entries (w.env.canon part) =
      w.fs.entries (w.env.canon part)
    rw [henv, hpart]
    exact hq _ _ _
  unfold removeFile call
  split
  · rename_i e he
    right
    show (w.env.turns (w.tick + 1 - 1)).failure ≠ none
    rw [Nat.add_sub_cancel, he]
    simp
  · dsimp only
    left
    split
    · assumption
    · rename_i hfolder
      rcases hleft.2 hq with h | h
      · rw [hnext, h] at hfolder
        cases hfolder
      · rw [hnext, h] at hfolder
        cases hfolder
    · show (w.next.setEntry part none).entry part = none
      rw [entry_setEntry, if_pos rfl]

/-- The answer, the engine and the world after a failure. -/
structure Cleaned (id : ℕ) (part : PathBuf) (w : World)
    (res : (Option FileAction × FileTransfers) × World) : Prop where
  ack : res.1.1 = some (.ack (failureAck id))
  dropped : res.1.2.receiving[id]? = none
  unpublished : publications res.2.effects = publications w.effects
  gone : Gone part res.2

section Detected

variable {env : Env} {ft : FileTransfers} {w : World} {id : ℕ} {r : Receiving}

theorem left_of_sheltered (h : Sheltered env ft w) (hr : ft.receiving[id]? = some r) :
    Left env ft.downloads r.part r.file w :=
  (Sheltered.guard_with hr h.guard).forget.2

theorem gone_failReceive (h : Sheltered env ft w) (hq : env.LeavesStaging ft.downloads)
    (hr : ft.receiving[id]? = some r) (error : String) :
    Gone r.part (ft.failReceive id error w).2 := by
  obtain ⟨k, -, hk⟩ := h.staged id r hr
  have hworld : (ft.failReceive id error w).2 = (removeFile r.part w).2 := by
    unfold failReceive
    rw [hr]
    unfold abandon
    dsimp only [report_receiving]
    rw [hr]
  rw [hworld]
  exact gone_removeFile hq h.guard.env_eq hk (left_of_sheltered h hr)

theorem place_mismatch (ft : FileTransfers) (p : Platform) {bytes : List UInt8}
    (hread : (readAll r.part w).1 = .ok bytes) (hhash : p.blake3 bytes ≠ r.expected) :
    ∃ e, (ft.place p r (.ok ()) w).1 = .error e := by
  have hverify : verify p r w =
      (.error (.message "the contents did not match the announced hash"),
        (readAll r.part w).2) := by
    unfold verify
    rw [Cmd.bind_ok (show readAll r.part w = (.ok bytes, (readAll r.part w).2) from
      Prod.ext hread rfl), if_pos hhash]
    rfl
  have hsynced : (Cmd.ofExcept (Except.mapError
      (fun e : Fault => e.context "syncing the arriving file") (.ok ())) : Sys Unit) w =
        (.ok (), w) := rfl
  refine ⟨.message "the contents did not match the announced hash", ?_⟩
  unfold place
  rw [Cmd.bind_ok hsynced, Cmd.bind_error hverify]

theorem settle_mismatch (h : Sheltered env ft w) (hq : env.LeavesStaging ft.downloads)
    (p : Platform) (hr : ft.receiving[id]? = some r) {bytes : List UInt8}
    (hsync : (syncAll r.file w).1 = .ok ())
    (hread : (readAll r.part (syncAll r.file w).2).1 = .ok bytes)
    (hhash : p.blake3 bytes ≠ r.expected) :
    (∃ e, (({ ft with receiving := ft.receiving.erase id } : FileTransfers).settle p r w).1 =
      .error e) ∧
    Gone r.part (({ ft with receiving := ft.receiving.erase id } : FileTransfers).settle p r w).2 := by
  obtain ⟨k, -, hk⟩ := h.staged id r hr
  have hst : Staged env ft.downloads (active { ft with receiving := ft.receiving.erase id }) := by
    intro path inode hp
    obtain ⟨a, s, -, hs, rfl, rfl⟩ := Sheltered.erase_active id hp
    exact h.staged_active _ _ ⟨a, s, hs, rfl, rfl⟩
  have hst' := With.staged r.file hst hk
  have hguard := Sheltered.guard_with hr h.guard
  have hsynced : Guard env ft.downloads w.drawn
      (With (active { ft with receiving := ft.receiving.erase id }) r.part r.file)
      (syncAll r.file w).2 := by
    unfold syncAll call
    split
    · exact stable_guard hst' w hguard
    · exact stable_guard hst' w hguard
  obtain ⟨e, he⟩ := place_mismatch { ft with receiving := ft.receiving.erase id } p hread hhash
  have hplace := (place_guard p { ft with receiving := ft.receiving.erase id } hst'
    (h.apart_erase hr) (h.inside id r hr) (.ok ()) _ hsynced).2 e he
  unfold settle
  dsimp only
  rw [hsync]
  exact ⟨⟨e, he⟩, gone_removeFile hq hplace.env_eq hk hplace.forget.2⟩

/-- **A detected failure** is answered, publishes nothing and leaves no staging
file behind unless its removal fails. -/
theorem detected_cleans (h : Sheltered env ft w) (hleaves : env.LeavesFiles ft.downloads)
    (p : Platform) {now : ℕ} {header : FileChunkHeader} {data : List UInt8}
    (hr : ft.receiving[header.transferId]? = some r) (hd : Detects p r now header data w) :
    Cleaned header.transferId r.part w (ft.onChunk p now header data w) := by
  have hwrite := writeAt_guard h.staged_active ⟨header.transferId, r, hr, rfl, rfl⟩
    header.offset data h.guard
  have hwpub := publications_writeAt r.file header.offset data w
  have hfail : ∀ (w' : World) (error : String), Sheltered env ft w' →
      publications w'.effects = publications w.effects →
      Cleaned header.transferId r.part w
        ((some (.ack (failureAck header.transferId)),
          (ft.failReceive header.transferId error w').1),
          (ft.failReceive header.transferId error w').2) := by
    intro w' error hs hpub
    obtain ⟨hft, hpub'⟩ := failReceive_receives ft header.transferId error w'
    refine ⟨rfl, ?_, hpub'.trans hpub, gone_failReceive hs hleaves.names hr error⟩
    show (ft.failReceive header.transferId error w').1.receiving[header.transferId]? = none
    rw [hft.receiving, if_pos rfl]
  unfold onChunk
  rw [hr]
  dsimp only
  cases hd with
  | overrun hover =>
    rw [if_pos hover]
    exact hfail w _ h rfl
  | @write e hfits herr =>
    rw [if_neg (by omega)]
    generalize hw : writeAt r.file header.offset data w = res at *
    obtain ⟨result, w'⟩ := res
    dsimp only at herr
    subst herr
    exact hfail w' _ (h.move hwrite) hwpub
  | @mismatch bytes hfits hok hall hsync hread hhash =>
    rw [if_neg (by omega)]
    generalize hw : writeAt r.file header.offset data w = res at *
    obtain ⟨result, w'⟩ := res
    dsimp only at hok hsync hread hwpub hwrite
    subst hok
    dsimp only
    generalize hn : note r now header.offset (saturatingAdd header.offset data.length) = noted at *
    have hpart : noted.part = r.part ∧ noted.file = r.file ∧ noted.finalPath = r.finalPath ∧
        noted.size = r.size ∧ noted.expected = r.expected := by
      rw [← hn]
      exact ⟨rfl, rfl, rfl, rfl, rfl⟩
    obtain ⟨hpart, hfile, hfinal, hsize, hexp⟩ := hpart
    rw [if_pos (hsize ▸ hall)]
    have hprog := progress_receives ft header.transferId noted
    have hsh := h.progress hr hpart hfile hfinal hwrite
    have hthere : (ft.progress header.transferId noted).receiving[header.transferId]? =
        some (acknowledge noted) := by
      rw [hprog.receiving, if_pos rfl]
    have hsame : (acknowledge noted).part = r.part ∧ (acknowledge noted).file = r.file ∧
        (acknowledge noted).expected = r.expected := by
      unfold acknowledge
      split
      · exact ⟨hpart, hfile, hexp⟩
      · exact ⟨hpart, hfile, hexp⟩
    obtain ⟨⟨e, he⟩, hgone⟩ := settle_mismatch hsh hleaves.names p hthere
      (by rw [hsame.2.1]; exact hsync)
      (show (readAll _ (syncAll _ _).2).1 = .ok bytes by rw [hsame.1, hsame.2.1]; exact hread)
      (by rw [hsame.2.2]; exact hhash)
    obtain ⟨hft, hcase⟩ := finish_cases p hsh hleaves hthere
    have hfin : ((ft.progress header.transferId noted).finish p header.transferId w').1.1 =
        .error e ∧
        ((ft.progress header.transferId noted).finish p header.transferId w').2 =
          (({ ft.progress header.transferId noted with
            receiving := (ft.progress header.transferId noted).receiving.erase
              header.transferId } : FileTransfers).settle p (acknowledge noted) w').2 := by
      unfold finish
      rw [hthere]
      dsimp only
      generalize FileTransfers.settle p _ (acknowledge noted) w' = settled at he ⊢
      obtain ⟨result, w''⟩ := settled
      dsimp only at he
      subst he
      exact ⟨rfl, rfl⟩
    rw [← hfin.2, hsame.1] at hgone
    generalize (ft.progress header.transferId noted).finish p header.transferId w' = fin at *
    obtain ⟨⟨result, ft'⟩, w''⟩ := fin
    obtain ⟨hres, -⟩ := hfin
    dsimp only at hres hft hcase hgone
    subst hres
    refine ⟨rfl, ?_, ?_, hgone⟩
    · show ft'.receiving[header.transferId]? = none
      rw [hft.receiving, if_pos rfl]
    · rcases hcase with ⟨_, _, hc, -⟩ | ⟨_, -, hpub⟩
      · cases hc
      · exact hpub.trans hwpub

end Detected

/-! ### The result -/

/-- **End-to-end integrity.**  Two engines whose messages arrive in any order,
chunks and acknowledgements also more than once (those of an empty file only
once), while calls on the file system fail at any point: a send reported complete
was published with the bytes its hash was computed over, and a detected failure
is answered, publishes nothing and leaves no staging file unless removing it
fails. -/
theorem transfers_intact {blake3 : List UInt8 → Text} {p : Bool → Platform} {env : Bool → Env}
    {fs : Bool → FileSystem} {folder : Bool → PathBuf} {permitted : Bool → Bool} {l : Duplex}
    (hblake : ∀ e, (p e).blake3 = blake3) (hinj : Function.Injective blake3)
    (huuid : ∀ e, Function.Injective (env e).uuids)
    (hleaves : ∀ e, (env e).LeavesFiles (folder e))
    (hr : Reach (Duplex.step p true) (Duplex.start env fs folder permitted) l) :
    Intact l ∧
      ∀ (e : Bool) (now : ℕ) (header : FileChunkHeader) (data : List UInt8) (r : Receiving),
        (l.peer e).1.receiving[header.transferId]? = some r →
        Detects (p e) r now header data (l.peer e).2 →
        Cleaned header.transferId r.part (l.peer e).2
          ((l.peer e).1.onChunk (p e) now header data (l.peer e).2) := by
  have hlinked := linked_of_reach hleaves hblake huuid hr
  refine ⟨intact_of_reach hleaves hblake hinj huuid hr, fun e now header data r hrecv hd => ?_⟩
  exact detected_cleans (hlinked.sheltered e) ((hlinked.downloads e).symm ▸ hleaves e) (p e) hrecv
    hd

instance (ft : FileTransfers) (id : ℕ) : Decidable (ft.Completed id) :=
  inferInstanceAs (Decidable (∃ u ∈ ft.updates, u.id = id ∧ u.direction = .send ∧
    u.state = .complete))

/-- A local file that can be read throughout. -/
def Source.sample (bytes : List UInt8) : Source :=
  ⟨"a", ['a'], bytes.length, some ['a'], .ok true, .ok (), .ok (true, bytes.length, none),
    .ok bytes, .ok ()⟩

/-- Two small machines, given what happens around each call on the second. -/
def Duplex.sample (turns : ℕ → Turn) : Duplex :=
  Duplex.start (fun e => Env.sample (if e then turns else fun _ => .quiet)) (fun _ => .blank)
    (fun _ => .sample) fun _ => true

/-- The offer of `Source.sample` as the first transfer. -/
def FileOffer.sample (bytes : List UInt8) : FileOffer :=
  ⟨1, ['a'], bytes.length, (Platform.sample .posix false).blake3 bytes, none⟩

theorem sample_blake3_injective (os : Os) (rename : Bool) :
    Function.Injective (Platform.sample os rename).blake3 := by
  refine List.map_injective_iff.mpr fun a b h => ?_
  have hval : ∀ c : UInt8, (Char.ofNat c.toNat).toNat = c.toNat := by
    intro c
    have hvalid : c.toNat.isValidChar := Or.inl (by have := c.toNat_lt; omega)
    rw [Char.ofNat, dif_pos hvalid]
    rfl
  exact UInt8.toNat_inj.mp (by rw [← hval a, ← hval b, h])

theorem quiet_leavesFiles (e : Bool) :
    (Env.sample (if e then fun _ => Turn.quiet else fun _ => .quiet)).LeavesFiles .sample := by
  cases e
  · exact ⟨fun _ _ _ => rfl, fun _ _ _ _ _ => rfl⟩
  · exact ⟨fun _ _ _ => rfl, fun _ _ _ _ _ => rfl⟩

/-- A file of one byte goes over; its first acknowledgement and its chunk stay in
flight and may arrive again. -/
theorem transfers_intact_one_byte :
    let p : Bool → Platform := fun _ => .sample .posix false
    let calls : List Call := [⟨false, .send 0 (.sample [7]), false⟩,
      ⟨true, .offer 0 (.sample [7]), false⟩, ⟨false, .ack 0 ⟨1, 0, fileWindow⟩, true⟩,
      ⟨false, .pump 0 1 [.ok [7]], false⟩, ⟨true, .chunk 0 ⟨1, 0⟩ [7], true⟩,
      ⟨false, .ack 0 ⟨1, 1, fileWindow⟩, false⟩]
    ∃ l, tryRun (Duplex.step p true) (.sample fun _ => .quiet) calls = some l ∧
      (l.peer false).1.Completed 1 ∧ Intact l := by
  intro p calls
  have hrun : (tryRun (Duplex.step p true) (.sample fun _ => .quiet) calls).any
      (fun l => (l.peer false).1.Completed 1) = true := by decide +kernel
  obtain ⟨l, hl, hc⟩ := (Option.any_eq_true _ _).mp hrun
  refine ⟨l, hl, by simpa using hc, ?_⟩
  exact (transfers_intact (fun _ => rfl) (sample_blake3_injective .posix false)
    (fun e => Env.sample_uuids_injective _) quiet_leavesFiles (reach_of_tryRun .init hl)).1

/-- A network that may also repeat the acknowledgements of an empty file. -/
def Duplex.stepRepeating (p : Bool → Platform) (l : Duplex) (c : Call) : Option Duplex :=
  match c.op.message with
  | none => some (l.act p c)
  | some m => if (l.flight !c.side).contains m then some (l.act p c) else none

/-- An empty file whose first acknowledgement arrives twice is reported complete
with nothing published; and a receiver whose failing write is followed by a
failing removal leaves its staging file. -/
theorem empty_file_complete_early :
    let p : Bool → Platform := fun _ => .sample .posix false
    let twice : List Call := [⟨false, .send 0 (.sample []), false⟩,
      ⟨true, .offer 0 (.sample []), false⟩, ⟨false, .ack 0 ⟨1, 0, fileWindow⟩, true⟩,
      ⟨false, .pump 0 1 [], false⟩, ⟨false, .ack 0 ⟨1, 0, fileWindow⟩, false⟩]
    let broken : ℕ → Turn := fun t =>
      if t = 3 ∨ t = 4 then ⟨id, some (.message "disk"), 0⟩ else .quiet
    let failing : List Call := [⟨false, .send 0 (.sample [7]), false⟩,
      ⟨true, .offer 0 (.sample [7]), false⟩, ⟨false, .ack 0 ⟨1, 0, fileWindow⟩, false⟩,
      ⟨false, .pump 0 1 [.ok [7]], false⟩, ⟨true, .chunk 0 ⟨1, 0⟩ [7], false⟩]
    (tryRun (Duplex.stepRepeating p) (.sample fun _ => .quiet) twice).any (fun l =>
        (l.peer false).1.Completed 1 ∧ publications (l.peer true).2.effects = []) = true ∧
      (tryRun (Duplex.step p true) (.sample broken) failing).any (fun l =>
        .ack (failureAck 1) ∈ l.flight true ∧
          (l.peer true).2.entry (staging (Env.sample broken) .sample 0) = some (.file 0)) = true := by
  decide +kernel

end NebulaDesk
