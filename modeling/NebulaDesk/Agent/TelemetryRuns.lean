/-
Every call of the file engine reports of a transfer only what may follow.

A call is a sequence of moves, each of which reports the progress or the end of one transfer
that is there, or begins one.  A move keeps the last update of every transfer but those pushed
out of the full buffer, and what is pending continues what has been published.
-/
import NebulaDesk.Agent.FilesCases
import NebulaDesk.Agent.Telemetry

namespace NebulaDesk

open FileTransfers
open Std (ExtTreeMap)

/-! ### The buffer -/

theorem TransferUpdate.Later.trans {u v w : TransferUpdate} (h : u.Later v) (h' : v.Later w) :
    u.Later w :=
  ⟨h.moving, h.progress.trans h'.progress, h'.state⟩

theorem key_ne_iff {u v : TransferUpdate} :
    (u.id ≠ v.id || u.direction ≠ v.direction) = true ↔ u.key ≠ v.key := by
  simp only [TransferUpdate.key, ne_eq, Prod.mk.injEq, Bool.or_eq_true, decide_eq_true_eq]
  tauto

/-- The updates of other keys, which the next one joins. -/
def others (updates : List TransferUpdate) (update : TransferUpdate) : List TransferUpdate :=
  updates.filter fun old => old.id ≠ update.id || old.direction ≠ update.direction

section Buffer

variable {updates : List TransferUpdate} {u v : TransferUpdate}

theorem recordUpdate_eq : recordUpdate updates u =
    (if (others updates u).length = maxUpdates then (others updates u).tail
      else others updates u) ++ [u] :=
  rfl

theorem mem_others : v ∈ others updates u ↔ v ∈ updates ∧ v.key ≠ u.key := by
  rw [others, List.mem_filter]
  exact and_congr_right fun _ => key_ne_iff

theorem mem_recordUpdate_self : u ∈ recordUpdate updates u :=
  List.mem_append_right _ (List.mem_singleton_self u)

theorem of_mem_recordUpdate (hv : v ∈ recordUpdate updates u) :
    v = u ∨ (v ∈ updates ∧ v.key ≠ u.key) := by
  rw [recordUpdate_eq] at hv
  rcases List.mem_append.mp hv with hv | hv
  · refine .inr (mem_others.mp ?_)
    split at hv
    · exact List.mem_of_mem_tail hv
    · exact hv
  · exact .inl (List.mem_singleton.mp hv)

theorem recordUpdate_of_ne {pre post : List TransferUpdate} (hne : v.key ≠ u.key)
    (hv : updates = pre ++ v :: post) :
    (∃ pre', recordUpdate updates u = pre' ++ v :: (others post u ++ [u])) ∨
      recordUpdate updates u = others post u ++ [u] ∧ (others post u).length + 1 = maxUpdates := by
  have hothers : others updates u = others pre u ++ v :: others post u := by
    rw [others, hv, List.filter_append]
    exact congrArg _ (List.filter_cons_of_pos (key_ne_iff.mpr hne))
  rw [recordUpdate_eq, hothers]
  split
  · next hfull =>
    cases hpre : others pre u with
    | nil =>
      rw [hpre, List.nil_append, List.length_cons] at hfull
      exact .inr ⟨rfl, hfull⟩
    | cons first rest =>
      exact .inl ⟨rest, by simp⟩
  · exact .inl ⟨others pre u, by simp⟩

theorem others_of_fresh (hfresh : ∀ v ∈ updates, v.key ≠ u.key) : others updates u = updates :=
  List.filter_eq_self.mpr fun v hv => key_ne_iff.mpr (hfresh v hv)

theorem recordUpdate_of_room (hfresh : ∀ v ∈ updates, v.key ≠ u.key)
    (hroom : updates.length ≠ maxUpdates) : recordUpdate updates u = updates ++ [u] := by
  rw [recordUpdate_eq, others_of_fresh hfresh, if_neg hroom]

theorem recordUpdate_of_full (hfresh : ∀ v ∈ updates, v.key ≠ u.key)
    (hfull : updates.length = maxUpdates) : recordUpdate updates u = updates.tail ++ [u] := by
  rw [recordUpdate_eq, others_of_fresh hfresh, if_pos hfull]

theorem nodup_recordUpdate (hnodup : (updates.map TransferUpdate.key).Nodup) :
    ((recordUpdate updates u).map TransferUpdate.key).Nodup := by
  have hothers : ((others updates u).map TransferUpdate.key).Nodup :=
    hnodup.sublist (List.filter_sublist.map _)
  have hfresh : u.key ∉ (others updates u).map TransferUpdate.key := by
    intro hmem
    obtain ⟨v, hv, hkey⟩ := List.mem_map.mp hmem
    exact (mem_others.mp hv).2 hkey
  rw [recordUpdate_eq, List.map_append, List.map_singleton, ← List.concat_eq_append,
    List.nodup_concat]
  split
  · rw [List.map_tail]
    exact ⟨fun hmem => hfresh (List.mem_of_mem_tail hmem), hothers.sublist (List.tail_sublist _)⟩
  · exact ⟨hfresh, hothers⟩

theorem length_recordUpdate_le (hlength : updates.length ≤ maxUpdates) :
    (recordUpdate updates u).length ≤ maxUpdates := by
  have hothers : (others updates u).length ≤ updates.length := List.length_filter_le ..
  rw [recordUpdate_eq, List.length_append, List.length_singleton]
  split
  · next hfull =>
    rw [List.length_tail, hfull]
    decide
  · omega

theorem length_le_others (hnodup : (updates.map TransferUpdate.key).Nodup) :
    updates.length ≤ (others updates u).length + 1 := by
  let same := updates.filter fun old => !(old.id ≠ u.id || old.direction ≠ u.direction)
  have hsplit : updates.length = (others updates u).length + same.length :=
    List.length_eq_length_filter_add _
  have hkeys : same.map TransferUpdate.key = List.replicate same.length u.key := by
    refine List.eq_replicate_iff.mpr ⟨List.length_map _, fun key hkey => ?_⟩
    obtain ⟨v, hv, rfl⟩ := List.mem_map.mp hkey
    by_contra hne
    have hboth := (List.mem_filter.mp hv).2
    rw [key_ne_iff.mpr hne] at hboth
    cases hboth
  have hone : same.length ≤ 1 := by
    rw [← List.nodup_replicate, ← hkeys]
    exact hnodup.sublist (List.filter_sublist.map _)
  omega

theorem length_recordUpdate_full (hnodup : (updates.map TransferUpdate.key).Nodup)
    (hfull : updates.length = maxUpdates) : (recordUpdate updates u).length = maxUpdates := by
  have hle := length_le_others (u := u) hnodup
  have hothers : (others updates u).length ≤ updates.length := List.length_filter_le ..
  rw [recordUpdate_eq, List.length_append, List.length_singleton]
  split
  · next heq =>
    rw [List.length_tail, heq]
    rfl
  · omega

end Buffer

/-! ### Moves -/

/-- How far a transfer that goes on has come, once `u` is reported of it. -/
def TransferUpdate.leaves (u : TransferUpdate) : Option ℕ :=
  if u.state.terminal then none else some u.transferred

theorem TransferUpdate.leaves_eq_some {u : TransferUpdate} {n : ℕ} :
    u.leaves = some n ↔ u.state.terminal = false ∧ u.transferred = n := by
  unfold leaves
  split <;> simp_all

namespace FileTransfers

/-- How far a transfer that goes on has come. -/
def reached (ft : FileTransfers) : TransferDirection × ℕ → Option ℕ
  | (.send, id) => ft.sending[id]?.map (·.offset)
  | (.receive, id) => ft.receiving[id]?.map (·.ranges.total)

/-- What has been written of every file is known without overlaps. -/
def Ranged (ft : FileTransfers) : Prop :=
  ∀ (id : ℕ) r, ft.receiving[id]? = some r → Ranges.Sorted r.ranges.list

/-- An update is reported, and the transfer is where the update says. -/
structure Reports (ft : FileTransfers) (u : TransferUpdate) (ft' : FileTransfers) : Prop where
  updates : ft'.updates = recordUpdate ft.updates u
  reached : ∀ key, ft'.reached key = if u.key = key then u.leaves else ft.reached key
  ranged : ft.Ranged → ft'.Ranged

/-- A step of a call that reports only what `P` allows. -/
inductive Move (P : TransferUpdate → Prop) (ft ft' : FileTransfers) : Prop
  /-- Nothing that is reported changes. -/
  | quiet (updates : ft'.updates = ft.updates) (nextId : ft'.nextId = ft.nextId)
      (reached : ∀ key, ft'.reached key = ft.reached key) (ranged : ft.Ranged → ft'.Ranged)
  /-- A transfer goes on or ends. -/
  | report {u : TransferUpdate} {n : ℕ} (allowed : P u) (active : ft.reached u.key = some n)
      (le : ft.Ranged → n ≤ u.transferred) (state : u.state ≠ .offered)
      (nextId : ft'.nextId = ft.nextId) (reports : Reports ft u ft')

abbrev Moves (P : TransferUpdate → Prop) : FileTransfers → FileTransfers → Prop :=
  Relation.ReflTransGen (Move P)

theorem Moves.mono {P Q : TransferUpdate → Prop} {ft ft' : FileTransfers} (h : Moves P ft ft')
    (hPQ : ∀ u, P u → Q u) : Moves Q ft ft' := by
  refine Relation.ReflTransGen.mono (r := Move P) (fun _ _ hm => ?_) _ _ h
  cases hm with
  | quiet hupdates hnextId hreached hranged => exact .quiet hupdates hnextId hreached hranged
  | report hallowed hactive hle hstate hnextId hreports =>
    exact .report (hPQ _ hallowed) hactive hle hstate hnextId hreports

/-- The update tells of the end of the transfer. -/
def Ends (key : TransferDirection × ℕ) (u : TransferUpdate) : Prop :=
  u.key = key ∧ u.state.terminal = true

def Begins (ft : FileTransfers) (key : TransferDirection × ℕ) (ft' : FileTransfers) : Prop :=
  ∃ u : TransferUpdate, u.key = key ∧ u.Initial ∧ Reports ft u ft'

variable {ft ft' : FileTransfers} {id now : ℕ} {u : TransferUpdate}

theorem reached_of_sends {s : Option Sending} (hreceiving : ft'.receiving = ft.receiving)
    (hsending : ∀ a : ℕ, ft'.sending[a]? = if id = a then s else ft.sending[a]?)
    (key : TransferDirection × ℕ) :
    ft'.reached key = if (.send, id) = key then s.map (·.offset) else ft.reached key := by
  obtain ⟨direction, a⟩ := key
  cases direction with
  | send =>
    show ft'.sending[a]?.map _ = _
    rw [hsending a]
    by_cases ha : id = a
    · rw [if_pos ha, if_pos (by rw [ha])]
    · rw [if_neg ha, if_neg (by simpa using ha)]
      rfl
  | receive =>
    show ft'.receiving[a]?.map _ = _
    rw [hreceiving, if_neg (by simp)]
    rfl

theorem reached_of_receives {r : Option Receiving} (hsending : ft'.sending = ft.sending)
    (hreceiving : ∀ a : ℕ, ft'.receiving[a]? = if id = a then r else ft.receiving[a]?)
    (key : TransferDirection × ℕ) :
    ft'.reached key = if (.receive, id) = key then r.map (·.ranges.total) else ft.reached key := by
  obtain ⟨direction, a⟩ := key
  cases direction with
  | send =>
    show ft'.sending[a]?.map _ = _
    rw [hsending, if_neg (by simp)]
    rfl
  | receive =>
    show ft'.receiving[a]?.map _ = _
    rw [hreceiving a]
    by_cases ha : id = a
    · rw [if_pos ha, if_pos (by rw [ha])]
    · rw [if_neg ha, if_neg (by simpa using ha)]
      rfl

/-- What is reported of the send `id` when only it changes. -/
theorem reports_of_sends {s : Option Sending} (hkey : u.key = (.send, id))
    (hupdates : ft'.updates = recordUpdate ft.updates u)
    (hreceiving : ft'.receiving = ft.receiving)
    (hsending : ∀ a : ℕ, ft'.sending[a]? = if id = a then s else ft.sending[a]?)
    (hleaves : s.map (·.offset) = u.leaves) : Reports ft u ft' where
  updates := hupdates
  reached key := by rw [hkey, ← hleaves, reached_of_sends hreceiving hsending]
  ranged h := by
    unfold Ranged
    rw [hreceiving]
    exact h

/-- What is reported of the receive `id` when only it changes. -/
theorem reports_of_receives {r : Option Receiving} (hkey : u.key = (.receive, id))
    (hupdates : ft'.updates = recordUpdate ft.updates u) (hsending : ft'.sending = ft.sending)
    (hreceiving : ∀ a : ℕ, ft'.receiving[a]? = if id = a then r else ft.receiving[a]?)
    (hleaves : r.map (·.ranges.total) = u.leaves)
    (hranged : ft.Ranged → ∀ r', r = some r' → Ranges.Sorted r'.ranges.list) :
    Reports ft u ft' where
  updates := hupdates
  reached key := by rw [hkey, ← hleaves, reached_of_receives hsending hreceiving]
  ranged h a r' hr' := by
    rw [hreceiving a] at hr'
    split at hr'
    · exact hranged h r' hr'
    · exact h a r' hr'

/-! ### Sending -/

theorem moves_of_sends {P : TransferUpdate → Prop} {s : Sending} {after : Option Sending} (hs : ft.sending[id]? = some s)
    (hupdates : ft'.updates = recordUpdate ft.updates u) (hkey : u.key = (.send, id))
    (hle : s.offset ≤ u.transferred) (hstate : u.state ≠ .offered)
    (hnextId : ft'.nextId = ft.nextId)
    (hreceiving : ft'.receiving = ft.receiving)
    (hsending : ∀ a : ℕ, ft'.sending[a]? = if id = a then after else ft.sending[a]?)
    (hleaves : after.map (·.offset) = u.leaves) (hallowed : P u) : Moves P ft ft' := by
  have hactive : ft.reached u.key = some s.offset := by
    rw [hkey]
    show ft.sending[id]?.map _ = _
    rw [hs]
    rfl
  exact .single (.report hallowed hactive (fun _ => hle) hstate hnextId
    (reports_of_sends hkey hupdates hreceiving hsending hleaves))

variable {error : String} {offer : FileOffer}

theorem rejectLocal_begins {source : Source} (hfresh : ft.sending[ft.nextId]? = none) :
    Begins ft (.send, ft.nextId) (ft.rejectLocal source error) := by
  refine ⟨_, rfl, ⟨rfl, .inr rfl⟩, reports_of_sends (s := none) rfl rfl rfl ?_ rfl⟩
  intro a
  split
  · next ha =>
    subst ha
    exact hfresh
  · rfl

theorem sendFile_begins {blake3 : List UInt8 → Text} {source : Source}
    (hfresh : ft.sending[ft.nextId]? = none) :
    Begins ft (.send, ft.nextId) (ft.sendFile blake3 now source).2 ∧
      (ft.sendFile blake3 now source).2.nextId = ft.nextId + 1 := by
  unfold sendFile
  split
  · exact ⟨rejectLocal_begins hfresh, rfl⟩
  · next offer hoffer =>
    obtain ⟨hid, -⟩ := prepareOffer_ok hoffer
    refine ⟨⟨_, ?_, ⟨rfl, .inl rfl⟩, reports_of_sends rfl rfl rfl
      (fun a => getElem?_sending_insert ft offer.transferId a _) rfl⟩, rfl⟩
    show ((.send, offer.transferId) : TransferDirection × ℕ) = _
    rw [hid]

theorem dropSending_moves {s : Sending} (hs : ft.sending[id]? = some s) (error : String) :
    Moves (Ends (.send, id)) ft (ft.dropSending id s error) :=
  moves_of_sends hs rfl rfl le_rfl nofun rfl rfl
    (getElem?_sending_erase ft id) rfl ⟨rfl, rfl⟩

theorem pump_moves {pick : ℕ} {reads : List (Except Fault (List UInt8))} :
    Moves (·.key = (.send, pick)) ft (ft.pump now pick reads).2 := by
  unfold pump
  split
  · exact .refl
  next s hs =>
  split
  · exact .refl
  split
  · let sent := { s with finished := true, lastProgress := now }
    exact moves_of_sends hs rfl rfl le_rfl nofun rfl rfl
      (fun a => getElem?_sending_insert ft pick a sent) rfl rfl
  split
  · exact (dropSending_moves hs _).mono fun _ => And.left
  · exact (dropSending_moves hs _).mono fun _ => And.left
  · next data _ _ =>
    let sent := { s with
      offset := s.offset + data.length
      lastProgress := now
      finished := s.finished || s.offset + data.length ≥ s.size }
    exact moves_of_sends hs rfl rfl
      (Nat.le_add_right ..) nofun rfl rfl (fun a => getElem?_sending_insert ft pick a sent) rfl rfl

theorem ackOutcome_kept {s s' : Sending} {ack : FileAck} (h : ackOutcome s now ack = .kept s') :
    s'.offset = s.offset := by
  unfold ackOutcome at h
  split at h
  · cases h
  split at h
  · cases h
    rfl
  split at h
  · cases h
  split at h <;> cases h <;> rfl

theorem onAck_moves {ack : FileAck} :
    Moves (·.key = (.send, ack.transferId)) ft (ft.onAck now ack) := by
  unfold onAck
  split
  · exact .refl
  next s hs =>
  split
  · exact moves_of_sends hs rfl rfl le_rfl nofun rfl rfl
      (getElem?_sending_erase ft _) rfl rfl
  · exact moves_of_sends hs rfl rfl le_rfl nofun rfl
      rfl (getElem?_sending_erase ft _) rfl rfl
  · next s' hkept =>
    -- The window has moved; what is reported of the transfer has not.
    refine .single (.quiet rfl rfl (fun key => ?_) fun h => h)
    have hsends := sends_insert ft ack.transferId s'
    rw [reached_of_sends hsends.receiving hsends.sending]
    split
    · next hkey =>
      rw [← hkey]
      show some s'.offset = ft.sending[ack.transferId]?.map _
      rw [hs, ackOutcome_kept hkept]
      rfl
    · rfl

/-! ### Receiving -/

theorem moves_of_receives {P : TransferUpdate → Prop} {r : Receiving} {after : Option Receiving}
    (hr : ft.receiving[id]? = some r) (hupdates : ft'.updates = recordUpdate ft.updates u)
    (hkey : u.key = (.receive, id)) (hle : ft.Ranged → r.ranges.total ≤ u.transferred)
    (hstate : u.state ≠ .offered) (hnextId : ft'.nextId = ft.nextId)
    (hsending : ft'.sending = ft.sending)
    (hreceiving : ∀ a : ℕ, ft'.receiving[a]? = if id = a then after else ft.receiving[a]?)
    (hleaves : after.map (·.ranges.total) = u.leaves)
    (hranged : ft.Ranged → ∀ r', after = some r' → Ranges.Sorted r'.ranges.list)
    (hallowed : P u) : Moves P ft ft' := by
  have hactive : ft.reached u.key = some r.ranges.total := by
    rw [hkey]
    show ft.receiving[id]?.map _ = _
    rw [hr]
    rfl
  exact .single (.report hallowed hactive hle hstate hnextId
    (reports_of_receives hkey hupdates hsending hreceiving hleaves hranged))

theorem moves_of_receives_erase {r : Receiving} {state : TransferState} {error : Option String}
    (hr : ft.receiving[id]? = some r) (hstate : state.terminal = true) :
    Moves (Ends (.receive, id)) ft
      { ft.report (r.update id state error) with receiving := ft.receiving.erase id } := by
  refine moves_of_receives hr rfl rfl (fun _ => le_rfl) ?_ rfl rfl
    (getElem?_receiving_erase ft id) ?_ nofun ⟨rfl, hstate⟩
  · intro hoffered
    rw [show state = .offered from hoffered] at hstate
    cases hstate
  · have hterminal : (r.update id state error).state.terminal = true := hstate
    rw [TransferUpdate.leaves, if_pos hterminal]
    rfl

variable {w : World} {p : Platform}

theorem failReceive_moves : Moves (Ends (.receive, id)) ft (ft.failReceive id error w).1 := by
  unfold failReceive
  split
  · next hnone =>
    unfold abandon
    rw [hnone]
  · next r hr =>
    unfold abandon
    rw [report_receiving, hr]
    exact moves_of_receives_erase hr rfl

theorem finish_moves {w w' : World} {result : Except Fault PathBuf}
    (hfinish : ft.finish p id w = ((result, ft'), w')) : Moves (Ends (.receive, id)) ft ft' := by
  unfold finish at hfinish
  split at hfinish
  · cases hfinish
    exact .refl
  · next r hr =>
    dsimp only at hfinish
    split at hfinish
    · cases hfinish
      exact moves_of_receives_erase hr rfl
    · cases hfinish
      exact moves_of_receives_erase hr rfl

theorem progress_moves {r : Receiving} {offset stop : ℕ} (hr : ft.receiving[id]? = some r) :
    Moves (·.key = (.receive, id)) ft (ft.progress id (note r now offset stop)) := by
  have hranges : (acknowledge (note r now offset stop)).ranges = r.ranges.add offset stop := by
    unfold acknowledge
    split <;> rfl
  refine moves_of_receives hr rfl rfl
    (fun h => Ranges.total_le_add (h id r hr) offset stop) nofun rfl rfl
    (fun a => getElem?_receiving_insert ft id a _) ?_ ?_ rfl
  · show some (acknowledge (note r now offset stop)).ranges.total = _
    rw [hranges]
    rfl
  · intro h r' hr'
    rw [← Option.some.inj hr', hranges]
    exact (h id r hr).add offset stop

theorem onChunk_moves {header : FileChunkHeader} {data : List UInt8} :
    Moves (·.key = (.receive, header.transferId)) ft (ft.onChunk p now header data w).1.2 := by
  unfold onChunk
  split
  · exact .refl
  next r hr =>
  split
  · exact failReceive_moves.mono fun _ => And.left
  split
  · exact failReceive_moves.mono fun _ => And.left
  dsimp only
  split
  · -- The last chunk is reported before the end of the transfer is.
    split
    · next hfinish =>
      exact (progress_moves hr).trans ((finish_moves hfinish).mono fun _ => And.left)
    · next hfinish =>
      exact (progress_moves hr).trans ((finish_moves hfinish).mono fun _ => And.left)
  · exact progress_moves hr

theorem rejectOffer_begins (hnew : ft.receiving.contains offer.transferId = false) :
    Begins ft (.receive, offer.transferId) (ft.rejectOffer offer error) := by
  unfold rejectOffer
  rw [if_neg (by rw [hnew]; exact Bool.false_ne_true)]
  refine ⟨_, rfl, ⟨rfl, .inr rfl⟩, reports_of_receives (r := none) rfl rfl rfl ?_ rfl nofun⟩
  intro a
  split
  · next ha =>
    subst ha
    exact ExtTreeMap.getElem?_eq_none_of_contains_eq_false hnew
  · rfl

theorem onOffer_of_contains (hknown : ft.receiving.contains offer.transferId = true) :
    (ft.onOffer p now offer w).1.2 = ft := by
  have hreject : ∀ error, ft.rejectOffer offer error = ft := fun error => if_pos hknown
  unfold onOffer
  split
  · exact hreject _
  split
  · exact hreject _
  split
  · exact hreject _
  rw [if_pos (.inr hknown)]
  exact hreject _

theorem onOffer_begins (hnew : ft.receiving.contains offer.transferId = false) :
    Begins ft (.receive, offer.transferId) (ft.onOffer p now offer w).1.2 ∧
      (ft.onOffer p now offer w).1.2.nextId = ft.nextId := by
  have hreject : ∀ error, Begins ft (.receive, offer.transferId) (ft.rejectOffer offer error) ∧
      (ft.rejectOffer offer error).nextId = ft.nextId := by
    intro error
    refine ⟨rejectOffer_begins hnew, ?_⟩
    unfold rejectOffer
    split <;> rfl
  unfold onOffer
  split
  · exact hreject _
  split
  · exact hreject _
  split
  · exact hreject _
  split
  · exact hreject _
  split
  · exact hreject _
  · refine ⟨⟨_, rfl, ⟨rfl, .inl rfl⟩, reports_of_receives rfl rfl rfl
      (fun a => getElem?_receiving_insert ft offer.transferId a _) rfl ?_⟩, rfl⟩
    intro _ r hr
    rw [← Option.some.inj hr]
    exact Ranges.sorted_empty

/-! ### Expiry -/

theorem expireStalled_moves : Moves (·.state.terminal = true) ft (ft.expireStalled now w).1 := by
  have hsends : ∀ (ids : List ℕ) (ft : FileTransfers),
      Moves (·.state.terminal = true) ft (ids.foldl (expireSend now) ft) := by
    intro ids
    induction ids with
    | nil => exact fun _ => .refl
    | cons id ids ih =>
      refine fun ft => .trans ?_ (ih _)
      unfold expireSend
      split
      · exact .refl
      · next s hs =>
        split
        · exact (dropSending_moves hs _).mono fun _ => And.right
        · exact .refl
  have hreceives : ∀ (ids : List ℕ) (st : FileTransfers × World),
      Moves (·.state.terminal = true) st.1 (ids.foldl (expireReceive now) st).1 := by
    intro ids
    induction ids with
    | nil => exact fun _ => .refl
    | cons id ids ih =>
      refine fun st => .trans ?_ (ih _)
      unfold expireReceive
      split
      · exact .refl
      · split
        · exact failReceive_moves.mono fun _ => And.right
        · exact .refl
  exact (hsends ft.sending.keys ft).trans
    (hreceives (ft.expireSends now).receiving.keys (ft.expireSends now, w))

end FileTransfers

end NebulaDesk
