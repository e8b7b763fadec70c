/-
What each call of the file engine can do.

One statement for each call, over the maps of the engine, what it puts on the
wire, what it publishes and which sends it reports complete.  Everything said
later about two engines rests on these and never unfolds a call again.
-/
import NebulaDesk.Agent.Placing
import NebulaDesk.Agent.Transfer

namespace NebulaDesk

open Std (ExtTreeMap)
open Cmd

namespace FileTransfers

/-- The engine has reported this send complete. -/
def Completed (ft : FileTransfers) (id : ℕ) : Prop :=
  ∃ u ∈ ft.updates, u.id = id ∧ u.direction = .send ∧ u.state = .complete

theorem mem_recordUpdate {updates : List TransferUpdate} {u v : TransferUpdate}
    (h : u ∈ recordUpdate updates v) : u ∈ updates ∨ u = v := by
  unfold recordUpdate at h
  dsimp only at h
  rcases List.mem_append.mp h with h | h
  · left
    split at h
    · exact List.mem_of_mem_filter (List.mem_of_mem_tail h)
    · exact List.mem_of_mem_filter h
  · exact Or.inr (List.mem_singleton.mp h)

variable {ft : FileTransfers} {id : ℕ}
variable {u : TransferUpdate} {ft ft' : FileTransfers} {out : Option FileAction}

theorem completed_report (h : (ft.report u).Completed id) :
    ft.Completed id ∨ (u.id = id ∧ u.direction = .send ∧ u.state = .complete) := by
  obtain ⟨v, hv, hid⟩ := h
  rcases mem_recordUpdate hv with hv | rfl
  · exact Or.inl ⟨v, hv, hid⟩
  · exact Or.inr hid

theorem completed_of_report (h : (ft.report u).Completed id)
    (hu : u.direction = .receive ∨ u.state ≠ .complete) : ft.Completed id := by
  rcases completed_report h with h | ⟨-, hd, hs⟩
  · exact h
  · rcases hu with hu | hu
    · rw [hd] at hu
      cases hu
    · exact absurd hs hu

/-- Only the receive `id` changes. -/
structure Receives (ft ft' : FileTransfers) (id : ℕ) (r : Option Receiving) : Prop where
  sending : ft'.sending = ft.sending
  nextId : ft'.nextId = ft.nextId
  receiving : ∀ a : ℕ, ft'.receiving[a]? = if id = a then r else ft.receiving[a]?
  completed : ∀ a, ft'.Completed a → ft.Completed a

theorem Receives.refl (ft : FileTransfers) (id : ℕ) : Receives ft ft id ft.receiving[id]? := by
  refine ⟨rfl, rfl, fun a => ?_, fun _ h => h⟩
  split
  · rename_i h
    rw [h]
  · rfl

theorem Receives.report {r : Option Receiving} (h : Receives ft ft' id r)
    (hu : u.direction = .receive ∨ u.state ≠ .complete) : Receives ft (ft'.report u) id r :=
  ⟨h.sending, h.nextId, h.receiving, fun a ha => h.completed a (completed_of_report ha hu)⟩

theorem receives_erase (ft : FileTransfers) (id : ℕ) :
    Receives ft { ft with receiving := ft.receiving.erase id } id none :=
  ⟨rfl, rfl, fun a => getElem?_receiving_erase ft id a, fun _ h => h⟩

theorem receives_insert (ft : FileTransfers) (id : ℕ) (r : Receiving) :
    Receives ft { ft with receiving := ft.receiving.insert id r } id (some r) :=
  ⟨rfl, rfl, fun a => getElem?_receiving_insert ft id a r, fun _ h => h⟩

theorem Receives.trans {ft ft' ft'' : FileTransfers} {r r' : Option Receiving}
    (h : Receives ft ft' id r) (h' : Receives ft' ft'' id r') : Receives ft ft'' id r' := by
  refine ⟨h'.sending.trans h.sending, h'.nextId.trans h.nextId, fun a => ?_,
    fun a ha => h.completed a (h'.completed a ha)⟩
  rw [h'.receiving, h.receiving]
  split <;> rfl

/-! ### Giving up -/

theorem abandon_receives (ft : FileTransfers) (id : ℕ) (w : World) :
    Receives ft (ft.abandon id w).1 id none ∧
      publications (ft.abandon id w).2.effects = publications w.effects := by
  unfold abandon
  split
  · rename_i hnone
    have := Receives.refl ft id
    rw [hnone] at this
    exact ⟨this, rfl⟩
  · exact ⟨receives_erase ft id, publications_removeFile _ _⟩

theorem failReceive_receives (ft : FileTransfers) (id : ℕ) (error : String) (w : World) :
    Receives ft (ft.failReceive id error w).1 id none ∧
      publications (ft.failReceive id error w).2.effects = publications w.effects := by
  unfold failReceive
  split
  · exact abandon_receives ft id w
  · rename_i r hr
    obtain ⟨h, hpub⟩ := abandon_receives (ft.report (r.update id .failed (some error))) id w
    refine ⟨Receives.trans ((Receives.refl ft id).report (Or.inl rfl)) h, hpub⟩

/-! ### A chunk -/

/-- What the arrival of a chunk does: what it answers, the engine it leaves, and
what it publishes. -/
inductive ChunkCase (blake3 : List UInt8 → Text) (ft : FileTransfers) (now : ℕ)
    (header : FileChunkHeader) (data : List UInt8) :
    Option FileAction → FileTransfers → List (PathBuf × List UInt8) → Prop
  | stray (hr : ft.receiving[header.transferId]? = none) :
      ChunkCase blake3 ft now header data none ft []
  | refused {r : Receiving} {ft' : FileTransfers}
      (hr : ft.receiving[header.transferId]? = some r)
      (hft : Receives ft ft' header.transferId none) :
      ChunkCase blake3 ft now header data (some (.ack (failureAck header.transferId))) ft' []
  | progressed {r noted : Receiving} {ft' : FileTransfers}
      (hr : ft.receiving[header.transferId]? = some r)
      (hfits : saturatingAdd header.offset data.length ≤ r.size)
      (hnoted : noted = note r now header.offset (saturatingAdd header.offset data.length))
      (hpart : noted.ranges.complete noted.size = false)
      (hft : Receives ft ft' header.transferId (some (acknowledge noted))) :
      ChunkCase blake3 ft now header data (dueAck header.transferId noted) ft' []
  | finished {r noted : Receiving} {ft' : FileTransfers} {path : PathBuf} {contents : List UInt8}
      (hr : ft.receiving[header.transferId]? = some r)
      (hfits : saturatingAdd header.offset data.length ≤ r.size)
      (hnoted : noted = note r now header.offset (saturatingAdd header.offset data.length))
      (hall : noted.ranges.complete noted.size = true) (hhash : blake3 contents = r.expected)
      (hft : Receives ft ft' header.transferId none) :
      ChunkCase blake3 ft now header data
        (some (.ack ⟨header.transferId, noted.ranges.contiguous, fileWindow⟩)) ft'
        [(path, contents)]

/-- The sending half is as it was. -/
structure Answers (ft : FileTransfers) (out : Option FileAction) (ft' : FileTransfers) : Prop where
  sending : ft'.sending = ft.sending
  nextId : ft'.nextId = ft.nextId
  completed : ∀ a, ft'.Completed a → ft.Completed a
  out : out = none ∨ ∃ a, out = some (.ack a)

theorem Receives.answers {r : Option Receiving} (h : Receives ft ft' id r)
    (hout : out = none ∨ ∃ a, out = some (.ack a)) : Answers ft out ft' :=
  ⟨h.sending, h.nextId, h.completed, hout⟩

theorem ChunkCase.answers {blake3 : List UInt8 → Text} {now : ℕ}
    {header : FileChunkHeader} {data : List UInt8}
    {added : List (PathBuf × List UInt8)}
    (h : ChunkCase blake3 ft now header data out ft' added) : Answers ft out ft' := by
  cases h with
  | stray hr => exact ⟨rfl, rfl, fun _ h => h, Or.inl rfl⟩
  | refused hr hft => exact hft.answers (Or.inr ⟨_, rfl⟩)
  | progressed hr hfits hnoted hpart hft =>
    refine hft.answers ?_
    unfold dueAck
    split
    · exact Or.inr ⟨_, rfl⟩
    · exact Or.inl rfl
  | finished hr hfits hnoted hall hhash hft => exact hft.answers (Or.inr ⟨_, rfl⟩)

theorem publications_writeAt (inode offset : ℕ) (data : List UInt8) (w : World) :
    publications (writeAt inode offset data w).2.effects = publications w.effects := by
  unfold writeAt
  dsimp only
  split <;> exact publications_did_of_not _ (by simp)

theorem progress_receives (ft : FileTransfers) (id : ℕ) (noted : Receiving) :
    Receives ft (ft.progress id noted) id (some (acknowledge noted)) :=
  (receives_insert ft id (acknowledge noted)).report (Or.inl rfl)

/-- What `finish` does to a receive that is there. -/
theorem finish_cases {env : Env} (p : Platform) {w : World}
    {r : Receiving} (hs : Sheltered env ft w) (hleaves : env.LeavesFiles ft.downloads)
    (hr : ft.receiving[id]? = some r) :
    Receives ft (ft.finish p id w).1.2 id none ∧
      ((∃ path contents, (ft.finish p id w).1.1 = .ok path ∧ p.blake3 contents = r.expected ∧
        publications (ft.finish p id w).2.effects =
          publications w.effects ++ [(path, contents)]) ∨
      (∃ e, (ft.finish p id w).1.1 = .error e ∧
        publications (ft.finish p id w).2.effects = publications w.effects)) := by
  obtain ⟨k, -, hk⟩ := hs.staged id r hr
  have hentry : w.entry r.part = some (.file r.file) :=
    hs.guard.present hleaves.names _ _ ⟨id, r, hr, rfl, rfl⟩
  obtain ⟨hok, herr⟩ := settle_publications hleaves p { ft with receiving := ft.receiving.erase id }
    hs.guard.env_eq hk hentry (hs.inside id r hr)
  unfold finish
  rw [hr]
  dsimp only
  split
  · rename_i e w' heq
    rw [heq] at herr
    exact ⟨(receives_erase ft id).report (Or.inl rfl), Or.inr ⟨e, rfl, herr e rfl⟩⟩
  · rename_i path w' heq
    rw [heq] at hok
    obtain ⟨contents, hhash, hpub⟩ := hok path rfl
    exact ⟨(receives_erase ft id).report (Or.inl rfl), Or.inl ⟨path, contents, rfl, hhash, hpub⟩⟩

/-- **What a chunk does**, where the others leave the staging files alone. -/
theorem onChunk_cases {env : Env} (p : Platform) (now : ℕ)
    (header : FileChunkHeader) (data : List UInt8) {w : World} (hs : Sheltered env ft w)
    (hleaves : env.LeavesFiles ft.downloads) :
    ∃ added, ChunkCase p.blake3 ft now header data (ft.onChunk p now header data w).1.1
        (ft.onChunk p now header data w).1.2 added ∧
      publications (ft.onChunk p now header data w).2.effects =
        publications w.effects ++ added := by
  unfold onChunk
  split
  · rename_i hnone
    exact ⟨[], .stray hnone, (List.append_nil _).symm⟩
  · rename_i r hr
    split
    · obtain ⟨hft, hpub⟩ := failReceive_receives ft header.transferId
        "chunk overran the announced size" w
      exact ⟨[], .refused hr hft, hpub.trans (List.append_nil _).symm⟩
    · rename_i hfits
      have hwpub := publications_writeAt r.file header.offset data w
      have hwrite := writeAt_guard hs.staged_active ⟨header.transferId, r, hr, rfl, rfl⟩
        header.offset data hs.guard
      split
      · rename_i e w' heq
        rw [heq] at hwpub
        obtain ⟨hft, hpub⟩ := failReceive_receives ft header.transferId
          ("could not write arriving file: " ++ e.text) w'
        exact ⟨[], .refused hr hft, (hpub.trans hwpub).trans (List.append_nil _).symm⟩
      · rename_i w' heq
        rw [heq] at hwpub hwrite
        have hnoted := hs.progress hr (s := note r now header.offset
          (saturatingAdd header.offset data.length)) rfl rfl rfl hwrite
        have hprog := progress_receives ft header.transferId
          (note r now header.offset (saturatingAdd header.offset data.length))
        dsimp only
        split
        · rename_i hall
          have hthere : (ft.progress header.transferId (note r now header.offset
              (saturatingAdd header.offset data.length))).receiving[header.transferId]? =
              some (acknowledge (note r now header.offset
                (saturatingAdd header.offset data.length))) := by
            rw [hprog.receiving, if_pos rfl]
          obtain ⟨hft, hcase⟩ := finish_cases p hnoted hleaves hthere
          have hexp : (acknowledge (note r now header.offset
              (saturatingAdd header.offset data.length))).expected = r.expected := by
            unfold acknowledge
            split <;> rfl
          split
          · rename_i path ft' w'' hfin
            rw [hfin] at hft hcase
            rcases hcase with ⟨path', contents, -, hhash, hpub⟩ | ⟨e, he, -⟩
            · refine ⟨[(path', contents)], ?_, hpub.trans (by rw [hwpub])⟩
              have hdue : dueAck header.transferId (note r now header.offset
                  (saturatingAdd header.offset data.length)) =
                  some (.ack ⟨header.transferId, (note r now header.offset
                    (saturatingAdd header.offset data.length)).ranges.contiguous, fileWindow⟩) := by
                rw [dueAck, if_pos]
                rw [due, hall, Bool.true_or]
              dsimp only
              rw [hdue]
              exact .finished hr (by omega) rfl hall (hhash.trans hexp) (hprog.trans hft)
            · cases he
          · rename_i e ft' w'' hfin
            rw [hfin] at hft hcase
            rcases hcase with ⟨path', contents, he, -, -⟩ | ⟨e, -, hpub⟩
            · cases he
            · exact ⟨[], .refused hr (hprog.trans hft),
                (hpub.trans hwpub).trans (List.append_nil _).symm⟩
        · rename_i hpart
          exact ⟨[], .progressed hr (by omega) rfl (by simpa using hpart) hprog,
            hwpub.trans (List.append_nil _).symm⟩

/-! ### An offer -/

inductive OfferCase (ft : FileTransfers) (offer : FileOffer) :
    Option FileAction → FileTransfers → Prop
  | declined {ft' : FileTransfers}
      (hft : Receives ft ft' offer.transferId ft.receiving[offer.transferId]?) :
      OfferCase ft offer none ft'
  | accepted {r : Receiving} {ft' : FileTransfers} (hr : Accepts offer r)
      (hnone : ft.receiving[offer.transferId]? = none)
      (hft : Receives ft ft' offer.transferId (some r)) :
      OfferCase ft offer (some (.ack ⟨offer.transferId, 0, fileWindow⟩)) ft'

theorem OfferCase.answers {offer : FileOffer}
    (h : OfferCase ft offer out ft') : Answers ft out ft' := by
  cases h with
  | declined hft => exact hft.answers (Or.inl rfl)
  | accepted hr hnone hft => exact hft.answers (Or.inr ⟨_, rfl⟩)

theorem rejectOffer_receives (ft : FileTransfers) (offer : FileOffer) (error : String) :
    Receives ft (ft.rejectOffer offer error) offer.transferId
      ft.receiving[offer.transferId]? := by
  unfold rejectOffer
  split
  · exact Receives.refl ft offer.transferId
  · exact (Receives.refl ft offer.transferId).report (Or.inl rfl)

theorem openPart_publications (p : Platform) (ft : FileTransfers) {name : Text}
    (hname : Plain name) (published : List (PathBuf × List UInt8)) :
    Triple (fun w => publications w.effects = published) (ft.openPart p name)
      (fun _ w => publications w.effects = published)
      (fun _ w => publications w.effects = published) := by
  have hstable : Stable fun w => publications w.effects = published := fun _ h => h
  refine Triple.bind (Q := fun _ w => publications w.effects = published) ?_ fun finalPath => ?_
  · refine (freePath_spec hstable p ft hname fun w q _ h => ?_).consequence (fun _ h => h)
      (fun _ _ h => h.2) (fun _ _ h => h)
    unfold makeFolder
    split
    · rw [publications_did_of_not _ (by simp)]
      exact h
    · exact h
  refine Triple.bind (Q := fun _ w => publications w.effects = published)
    (fun w h => ⟨fun _ _ => h, fun _ _ => h⟩) fun uuid => ?_
  refine Triple.bind ?_
    fun file => Triple.pure fun _ h => h
  refine triple_call hstable fun w h => ?_
  split
  · exact ⟨fun a ha => (by cases ha), fun e _ => h⟩
  · refine ⟨fun a _ => ?_, fun e he => (by cases he)⟩
    show publications (World.did _ _).effects = _
    rw [publications_did_of_not _ (by simp)]
    exact h

/-- **What an offer does.** -/
theorem onOffer_cases (p : Platform) (ft : FileTransfers) (now : ℕ) (offer : FileOffer)
    (w : World) :
    OfferCase ft offer (ft.onOffer p now offer w).1.1 (ft.onOffer p now offer w).1.2 ∧
      publications (ft.onOffer p now offer w).2.effects = publications w.effects := by
  have hreject : ∀ error, OfferCase ft offer none (ft.rejectOffer offer error) := fun error =>
    .declined (rejectOffer_receives ft offer error)
  unfold onOffer
  split
  · exact ⟨hreject _, rfl⟩
  split
  · exact ⟨hreject _, rfl⟩
  · rename_i hsafe
    have hname : Plain offer.name := plain_of_hasSafeName (by simpa using hsafe)
    split
    · exact ⟨hreject _, rfl⟩
    split
    · exact ⟨hreject _, rfl⟩
    · rename_i hroom
      have hopen := openPart_publications p ft hname (publications w.effects) w rfl
      split
      · rename_i e w' heq
        rw [heq] at hopen
        exact ⟨hreject _, hopen.2 e rfl⟩
      · rename_i opened w' heq
        rw [heq] at hopen
        refine ⟨.accepted (r := ⟨offer.name, opened.2.2, opened.2.1, opened.1, Ranges.empty, 0,
          offer.size, offer.blake3, offer.modifiedSecs, now⟩) ⟨rfl, rfl, rfl, rfl⟩ ?_ ?_,
          hopen.1 opened rfl⟩
        · have hnot : ¬ offer.transferId ∈ ft.receiving := by
            rw [← ExtTreeMap.contains_iff_mem]
            exact fun hc => hroom (Or.inr hc)
          exact ExtTreeMap.getElem?_eq_none hnot
        · exact (receives_insert ft offer.transferId _).report (Or.inl rfl)

/-! ### The sending half -/

/-- Only the send `id` changes. -/
structure Sends (ft ft' : FileTransfers) (id : ℕ) (s : Option Sending) : Prop where
  receiving : ft'.receiving = ft.receiving
  downloads : ft'.downloads = ft.downloads
  sending : ∀ a : ℕ, ft'.sending[a]? = if id = a then s else ft.sending[a]?

theorem sends_erase (ft : FileTransfers) (id : ℕ) :
    Sends ft { ft with sending := ft.sending.erase id } id none :=
  ⟨rfl, rfl, fun a => getElem?_sending_erase ft id a⟩

theorem sends_insert (ft : FileTransfers) (id : ℕ) (s : Sending) :
    Sends ft { ft with sending := ft.sending.insert id s } id (some s) :=
  ⟨rfl, rfl, fun a => getElem?_sending_insert ft id a s⟩

theorem Sends.refl (ft : FileTransfers) (id : ℕ) : Sends ft ft id ft.sending[id]? := by
  refine ⟨rfl, rfl, fun a => ?_⟩
  split
  · rename_i h
    rw [h]
  · rfl

inductive SendCase (blake3 : List UInt8 → Text) (ft : FileTransfers) (source : Source) :
    Option FileAction → FileTransfers → Prop
  | failed {ft' : FileTransfers} (hsend : ft'.sending = ft.sending) :
      SendCase blake3 ft source none ft'
  | offered {offer : FileOffer} {bytes : List UInt8} {s : Sending} {ft' : FileTransfers}
      (hid : offer.transferId = ft.nextId) (hsize : offer.size ≤ maxFile)
      (hbytes : source.contents = .ok bytes) (hhash : offer.blake3 = blake3 bytes)
      (hs : Starts offer s) (hft : Sends ft ft' ft.nextId (some s)) :
      SendCase blake3 ft source (some (.offer offer)) ft'

theorem except_bind_ok {ε α β : Type} {x : Except ε α} {f : α → Except ε β} {b : β}
    (h : (x >>= f) = .ok b) : ∃ a, x = .ok a ∧ f a = .ok b := by
  cases x with
  | ok a => exact ⟨a, rfl, h⟩
  | error e => cases h

theorem of_ensure {ok : Bool} {text : String} {u : Unit} (h : ensure ok text = .ok u) :
    ok = true := by
  unfold ensure at h
  split at h
  · assumption
  · cases h

theorem prepareOffer_ok {blake3 : List UInt8 → Text}
    {source : Source} {offer : FileOffer} (h : prepareOffer blake3 ft id source = .ok offer) :
    offer.transferId = id ∧ offer.size ≤ maxFile ∧
      ∃ bytes, source.contents = .ok bytes ∧ offer.blake3 = blake3 bytes := by
  unfold prepareOffer at h
  obtain ⟨-, -, h⟩ := except_bind_ok h
  obtain ⟨-, -, h⟩ := except_bind_ok h
  obtain ⟨name, -, h⟩ := except_bind_ok h
  obtain ⟨regular, -, h⟩ := except_bind_ok h
  obtain ⟨-, -, h⟩ := except_bind_ok h
  obtain ⟨-, -, h⟩ := except_bind_ok h
  obtain ⟨facts, -, h⟩ := except_bind_ok h
  obtain ⟨-, -, h⟩ := except_bind_ok h
  obtain ⟨_, hsize, h⟩ := except_bind_ok h
  obtain ⟨contents, hcontents, h⟩ := except_bind_ok h
  obtain ⟨-, -, h⟩ := except_bind_ok h
  obtain ⟨-, -, h⟩ := except_bind_ok h
  cases h
  refine ⟨rfl, ?_, contents, hcontents, rfl⟩
  simpa using of_ensure hsize

/-- **What starting a send does.** -/
theorem sendFile_cases (blake3 : List UInt8 → Text) (ft : FileTransfers) (now : ℕ)
    (source : Source) :
    SendCase blake3 ft source (ft.sendFile blake3 now source).1.toOption
        (ft.sendFile blake3 now source).2 ∧
      (ft.sendFile blake3 now source).2.nextId = ft.nextId + 1 ∧
      ∀ a, (ft.sendFile blake3 now source).2.Completed a → ft.Completed a := by
  unfold sendFile
  split
  · exact ⟨.failed rfl, rfl, fun a h => completed_of_report h (Or.inr (by simp))⟩
  · rename_i offer hoffer
    obtain ⟨hid, hsize, bytes, hbytes, hhash⟩ := prepareOffer_ok hoffer
    refine ⟨.offered (s := ⟨0, offer.size, 0, false, now, offer.name⟩) hid hsize hbytes hhash
      ⟨rfl, rfl, rfl, rfl⟩ ?_, rfl, fun a h => ?_⟩
    · rw [← hid]
      exact ⟨rfl, rfl, fun a => getElem?_sending_insert ft offer.transferId a _⟩
    · exact completed_of_report h (Or.inr (by simp [Sending.update]))

/-- What `pump` does. -/
inductive PumpCase (ft : FileTransfers) (now pick : ℕ) : Option FileAction → FileTransfers → Prop
  | idle : PumpCase ft now pick none ft
  | empty {s : Sending} {ft' : FileTransfers} (hs : ft.sending[pick]? = some s)
      (hready : s.ready = true) (hsize : s.size = 0)
      (hft : Sends ft ft' pick (some { s with finished := true, lastProgress := now })) :
      PumpCase ft now pick (some (.chunk ⟨pick, 0⟩ [])) ft'
  | sent {s : Sending} {data : List UInt8} {ft' : FileTransfers} (hs : ft.sending[pick]? = some s)
      (hready : s.ready = true) (hsize : s.size ≠ 0) (hne : data ≠ [])
      (hlen : data.length ≤ wanted s) (hft : Sends ft ft' pick (some (sentChunk s now data.length))) :
      PumpCase ft now pick (some (.chunk ⟨pick, s.offset⟩ data)) ft'
  | dropped {ft' : FileTransfers} (hft : Sends ft ft' pick none) : PumpCase ft now pick none ft'

theorem length_fill {want : ℕ} {reads : List (Except Fault (List UInt8))} {data : List UInt8}
    (h : fill want reads = .ok data) : data.length ≤ want := by
  induction reads generalizing want data with
  | nil =>
    cases h
    exact Nat.zero_le _
  | cons read reads ih =>
    unfold fill at h
    split at h
    · cases h
      exact Nat.zero_le _
    · split at h
      · cases h
      · rename_i bytes
        split at h
        · cases h
          exact Nat.zero_le _
        · cases hrest : fill (want - (bytes.take want).length) reads with
          | error e =>
            rw [hrest] at h
            cases h
          | ok rest =>
            rw [hrest] at h
            cases h
            have hle := ih hrest
            have htake : (bytes.take want).length ≤ want := List.length_take_le ..
            rw [List.length_append]
            omega

/-- **What `pump` does.** -/
theorem pump_cases (ft : FileTransfers) (now pick : ℕ) (reads : List (Except Fault (List UInt8))) :
    PumpCase ft now pick (ft.pump now pick reads).1 (ft.pump now pick reads).2 ∧
      (ft.pump now pick reads).2.nextId = ft.nextId ∧
      ∀ a, (ft.pump now pick reads).2.Completed a → ft.Completed a := by
  unfold pump
  split
  · exact ⟨.idle, rfl, fun _ h => h⟩
  · rename_i s hs
    split
    · exact ⟨.idle, rfl, fun _ h => h⟩
    · rename_i hready
      have hready : s.ready = true := by simpa using hready
      split
      · rename_i hsize
        refine ⟨.empty hs hready hsize ?_, rfl, fun a h => ?_⟩
        · exact ⟨rfl, rfl, (sends_insert ft pick _).sending⟩
        · exact completed_of_report h (Or.inr (by simp [Sending.update]))
      · rename_i hsize
        have hdrop : ∀ error, Sends ft (ft.dropSending pick s error) pick none ∧
            (∀ a, (ft.dropSending pick s error).Completed a → ft.Completed a) := fun error =>
          ⟨⟨rfl, rfl, (sends_erase ft pick).sending⟩,
            fun a h => completed_of_report h (Or.inr (by simp [Sending.update]))⟩
        split
        · exact ⟨.dropped (hdrop _).1, rfl, (hdrop _).2⟩
        · exact ⟨.dropped (hdrop _).1, rfl, (hdrop _).2⟩
        · rename_i data hne hfill
          refine ⟨.sent hs hready hsize hne (length_fill hfill) ?_, rfl, fun a h => ?_⟩
          · exact ⟨rfl, rfl, (sends_insert ft pick _).sending⟩
          · exact completed_of_report h (Or.inr (by simp [Sending.update]))

/-- **What an acknowledgement does.** -/
theorem onAck_cases (ft : FileTransfers) (now : ℕ) (ack : FileAck) :
    Sends ft (ft.onAck now ack) ack.transferId
        (ft.sending[ack.transferId]?.bind (acked now ack)) ∧
      (ft.onAck now ack).nextId = ft.nextId ∧
      ∀ a, (ft.onAck now ack).Completed a → ft.Completed a ∨
        (a = ack.transferId ∧
          ∃ s, ft.sending[a]? = some s ∧ ackOutcome s now ack = .complete) := by
  unfold onAck
  split
  · rename_i hnone
    have := Sends.refl ft ack.transferId
    rw [hnone] at this ⊢
    exact ⟨this, rfl, fun _ h => Or.inl h⟩
  · rename_i s hs
    rw [hs, Option.bind_some, acked]
    split
    · rename_i hout
      rw [hout]
      exact ⟨⟨rfl, rfl, (sends_erase ft _).sending⟩, rfl,
        fun a h => Or.inl (completed_of_report h (Or.inr (by simp [Sending.update])))⟩
    · rename_i hout
      rw [hout]
      refine ⟨⟨rfl, rfl, (sends_erase ft _).sending⟩, rfl, fun a h => ?_⟩
      rcases completed_report h with h | ⟨rfl, -, -⟩
      · exact Or.inl h
      · exact Or.inr ⟨rfl, s, hs, hout⟩
    · rename_i hout
      rw [hout]
      exact ⟨sends_insert ft _ _, rfl, fun _ h => Or.inl h⟩

/-! ### Expiry -/

/-- Some sends and receives are dropped, and nothing is published. -/
structure Expires (st st' : FileTransfers × World) : Prop where
  sending : ∀ a : ℕ, st'.1.sending[a]? = st.1.sending[a]? ∨ st'.1.sending[a]? = none
  receiving : ∀ a : ℕ, st'.1.receiving[a]? = st.1.receiving[a]? ∨ st'.1.receiving[a]? = none
  nextId : st'.1.nextId = st.1.nextId
  completed : ∀ a, st'.1.Completed a → st.1.Completed a
  published : publications st'.2.effects = publications st.2.effects

theorem Expires.refl (st : FileTransfers × World) : Expires st st :=
  ⟨fun _ => Or.inl rfl, fun _ => Or.inl rfl, rfl, fun _ h => h, rfl⟩

theorem Expires.trans {st st' st'' : FileTransfers × World} (h : Expires st st')
    (h' : Expires st' st'') : Expires st st'' := by
  refine ⟨fun a => ?_, fun a => ?_, h'.nextId.trans h.nextId,
    fun a ha => h.completed a (h'.completed a ha), h'.published.trans h.published⟩
  · rcases h'.sending a with hs | hs
    · rw [hs]
      exact h.sending a
    · exact Or.inr hs
  · rcases h'.receiving a with hs | hs
    · rw [hs]
      exact h.receiving a
    · exact Or.inr hs

theorem expireSend_expires (now : ℕ) (ft : FileTransfers) (w : World) (id : ℕ) :
    Expires (ft, w) (expireSend now ft id, w) := by
  unfold expireSend
  split
  · exact Expires.refl _
  · split
    · refine ⟨fun a => ?_, fun _ => Or.inl rfl, rfl, fun a h => ?_, rfl⟩
      · show (ft.sending.erase id)[a]? = _ ∨ (ft.sending.erase id)[a]? = _
        rw [getElem?_sending_erase]
        split
        · exact Or.inr rfl
        · exact Or.inl rfl
      · exact completed_of_report h (Or.inr (by simp [Sending.update]))
    · exact Expires.refl _

theorem expireReceive_expires (now : ℕ) (st : FileTransfers × World) (id : ℕ) :
    Expires st (expireReceive now st id) := by
  unfold expireReceive
  split
  · exact Expires.refl _
  · split
    · obtain ⟨h, hpub⟩ := failReceive_receives st.1 id "incomplete file receive timed out" st.2
      refine ⟨fun a => Or.inl (by rw [h.sending]), fun a => ?_, h.nextId, h.completed, hpub⟩
      rw [h.receiving]
      split
      · exact Or.inr rfl
      · exact Or.inl rfl
    · exact Expires.refl _

/-- **What expiry does.** -/
theorem expireStalled_expires (ft : FileTransfers) (now : ℕ) (w : World) :
    Expires (ft, w) (ft.expireStalled now w) := by
  have hsends : ∀ (ids : List ℕ) (ft : FileTransfers),
      Expires (ft, w) (ids.foldl (expireSend now) ft, w) := by
    intro ids
    induction ids with
    | nil => exact fun ft => Expires.refl _
    | cons id ids ih => exact fun ft => (expireSend_expires now ft w id).trans (ih _)
  have hreceives : ∀ (ids : List ℕ) (st : FileTransfers × World),
      Expires st (ids.foldl (expireReceive now) st) := by
    intro ids
    induction ids with
    | nil => exact fun st => Expires.refl _
    | cons id ids ih => exact fun st => (expireReceive_expires now st id).trans (ih _)
  exact (hsends _ ft).trans (hreceives _ _)

end FileTransfers

end NebulaDesk
