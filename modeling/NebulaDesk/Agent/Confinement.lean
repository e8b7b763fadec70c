/-
The receiving side stays inside the download folder.

`Confined` says of the receiver's effects, in order, that each was allowed when
it happened: names are made only directly in the folder and only where nothing
was, contents are written only to files the receiver made, and a name is removed
only if it made it.  `Guard` carries this through the commands of the receiver,
with the staging files it holds; `receiver_confined` is the result for every
sequence of calls and whatever other programs do.
-/
import NebulaDesk.Agent.FilesSpec
import NebulaDesk.Lib.Runs

namespace NebulaDesk

open Std (ExtTreeMap)
open Cmd Runs

/-- The staging path under the `k`-th random identifier. -/
def staging (env : Env) (folder : PathBuf) (k : ℕ) : PathBuf :=
  folder.child (FileTransfers.stagingName (env.uuids k))

/-- Other programs leave the receiver's staging names alone. -/
def Env.LeavesStaging (env : Env) (folder : PathBuf) : Prop :=
  ∀ (t k : ℕ) (fs : FileSystem),
    ((env.turns t).others fs).entries (env.canon (staging env folder k)) =
      fs.entries (env.canon (staging env folder k))

/-- Whether the receiver may do this after the effects `past`. -/
def Allowed (env : Env) (folder : PathBuf) (past : List Effect) : Effect → Prop
  | .folder path => path ∈ folder.ancestors
  | .created path _ before => folder.Inside path ∧ before = none
  | .wrote inode => ∃ path before, .created path inode before ∈ past
  | .published path _ before => folder.Inside path ∧ before = none
  | .removed path entry => ∃ inode before, .created path inode before ∈ past ∧
      (env.LeavesStaging folder → entry = .file inode)

/-- Every effect was allowed when it happened. -/
def Confined (env : Env) (folder : PathBuf) (effects : List Effect) : Prop :=
  Each (Allowed env folder) effects

/-- The receiver made this name, for this file. -/
def Made (w : World) (path : PathBuf) (inode : ℕ) : Prop :=
  ∃ before, .created path inode before ∈ w.effects

/-- What the receiver's commands keep: a clean record, and the staging files in
`held`, each under its name while the others leave it there. -/
structure Guard (env : Env) (folder : PathBuf) (floor : ℕ) (held : PathBuf → ℕ → Prop) (w : World) :
    Prop where
  env_eq : w.env = env
  drawn : floor ≤ w.drawn
  confined : Confined env folder w.effects
  made : ∀ path inode, held path inode → Made w path inode
  present : env.LeavesStaging folder → ∀ path inode, held path inode →
    w.entry path = some (.file inode)

/-- All held names are staging names. -/
def Staged (env : Env) (folder : PathBuf) (held : PathBuf → ℕ → Prop) : Prop :=
  ∀ path inode, held path inode → ∃ k, path = staging env folder k

section Guard

variable {env : Env} {folder : PathBuf} {floor : ℕ} {held : PathBuf → ℕ → Prop} {w : World}

theorem entry_setEntry (w : World) (path q : PathBuf) (e : Option Entry) :
    (w.setEntry path e).entry q = if w.env.canon q = w.env.canon path then e else w.entry q := by
  show Function.update w.fs.entries (w.env.canon path) e (w.env.canon q) = _
  rw [Function.update_apply]
  rfl

theorem Guard.entry_next (h : Guard env folder floor held w) (hq : env.LeavesStaging folder) (k : ℕ) :
    w.next.entry (staging env folder k) = w.entry (staging env folder k) := by
  show ((w.env.turns w.tick).others w.fs).entries (w.env.canon (staging env folder k)) =
    w.fs.entries (w.env.canon (staging env folder k))
  rw [h.env_eq]
  exact hq _ _ _

theorem stable_guard (hst : Staged env folder held) : Stable (Guard env folder floor held) := by
  intro w h
  refine ⟨h.env_eq, h.drawn, h.confined, h.made, fun hq path inode hp => ?_⟩
  obtain ⟨k, rfl⟩ := hst path inode hp
  rw [h.entry_next hq k]
  exact h.present hq _ inode hp

variable {path : PathBuf}

theorem Guard.entry_setEntry (h : Guard env folder floor held w) (hq : env.LeavesStaging folder)
    {q : PathBuf} (hfree : w.entry q = none) (e : Option Entry) {inode : ℕ}
    (hp : held path inode) : (w.setEntry q e).entry path = some (.file inode) := by
  have hpath := h.present hq path inode hp
  rw [NebulaDesk.entry_setEntry, if_neg, hpath]
  intro heq
  have hsame : w.entry path = w.entry q := by rw [World.entry, World.entry, heq]
  rw [hsame, hfree] at hpath
  cases hpath

theorem Guard.rebase (h : Guard env folder floor held w) : Guard env folder w.drawn held w :=
  ⟨h.env_eq, le_rfl, h.confined, h.made, h.present⟩

theorem Made.did {inode : ℕ} (h : Made w path inode) (e : Effect) : Made (w.did e) path inode := by
  obtain ⟨before, hmem⟩ := h
  exact ⟨before, List.mem_append_left _ hmem⟩

theorem Guard.makeFolder (h : Guard env folder floor held w) {q : PathBuf} (hq : q ∈ folder.ancestors) :
    Guard env folder floor held (makeFolder w q) := by
  unfold NebulaDesk.makeFolder
  split
  · rename_i hnone
    refine ⟨h.env_eq, h.drawn, h.confined.snoc hq, fun path inode hp => (h.made path inode hp).did _, ?_⟩
    intro hl path inode hp
    exact h.entry_setEntry hl (Option.isNone_iff_eq_none.mp hnone) _ hp
  · exact h

theorem freePath_guard (p : Platform) (ft : FileTransfers) {name : Text} (hname : Plain name)
    (hst : Staged env ft.downloads held) :
    Triple (Guard env ft.downloads floor held) (ft.freePath p name)
      (fun path w => ft.Free path ∧ Guard env ft.downloads floor held w)
      (fun _ => Guard env ft.downloads floor held) :=
  FileTransfers.freePath_spec (stable_guard hst) p ft hname fun _ _ hq h => h.makeFolder hq

theorem createNew_guard (hst : Staged env folder held) (k : ℕ) :
    Triple (Guard env folder floor held) (createNew (staging env folder k))
      (fun inode w =>
        Guard env folder floor
          (fun path i => held path i ∨ (path = staging env folder k ∧ i = inode)) w ∧
        (env.LeavesStaging folder →
          ∀ path i, held path i → env.canon path ≠ env.canon (staging env folder k)))
      (fun _ => Guard env folder floor held) := by
  refine FileTransfers.triple_call (stable_guard hst) fun w h => ?_
  split
  · refine ⟨fun a ha => ?_, fun e _ => h⟩
    cases ha
  · rename_i hnone
    refine ⟨fun inode hi => ?_, fun e he => ?_⟩
    · cases hi
      have hinside : folder.Inside (staging env folder k) :=
        ⟨_, FileTransfers.plain_stagingName env k, rfl⟩
      refine ⟨⟨h.env_eq, h.drawn, h.confined.snoc ⟨hinside, hnone⟩, ?_, ?_⟩, ?_⟩
      · rintro path i (hp | ⟨rfl, rfl⟩)
        · exact (h.made path i hp).did _
        · exact ⟨_, List.mem_append_right _ List.mem_cons_self⟩
      · rintro hq path i (hp | ⟨rfl, rfl⟩)
        · exact h.entry_setEntry hq hnone _ hp
        · show (w.setEntry (staging env folder k) (some (.file w.fresh))).entry
            (staging env folder k) = _
          rw [entry_setEntry, if_pos rfl]
      · intro hq path i hp heq
        have hpath := h.present hq path i hp
        have hsame : w.entry path = w.entry (staging env folder k) := by
          rw [World.entry, World.entry, h.env_eq, heq]
        rw [hsame, hnone] at hpath
        cases hpath
    · cases he

theorem writeAt_guard (hst : Staged env folder held) {inode : ℕ}
    (hp : held path inode) (offset : ℕ) (data : List UInt8) (h : Guard env folder floor held w) :
    Guard env folder floor held (writeAt inode offset data w).2 := by
  have hnext := stable_guard hst w h
  obtain ⟨before, hmem⟩ := hnext.made path inode hp
  have hput : ∀ bytes, Guard env folder floor held ((w.next.setContents inode bytes).did (.wrote inode)) :=
    fun bytes => ⟨hnext.env_eq, hnext.drawn, hnext.confined.snoc ⟨path, before, hmem⟩,
      fun q i hq => (hnext.made q i hq).did _, hnext.present⟩
  unfold writeAt
  dsimp only
  split
  · exact hput _
  · exact hput _

/-- What is left of a staging file after an attempt to publish it: its name is
still there for it, or gone. -/
def Left (env : Env) (folder : PathBuf) (path : PathBuf) (inode : ℕ) (w : World) : Prop :=
  Made w path inode ∧
    (env.LeavesStaging folder → w.entry path = some (.file inode) ∨ w.entry path = none)

/-- Held together with one more staging file. -/
def With (held : PathBuf → ℕ → Prop) (part : PathBuf) (file : ℕ) (path : PathBuf) (inode : ℕ) :
    Prop := held path inode ∨ (path = part ∧ inode = file)

variable {part : PathBuf}

theorem Guard.forget {file : ℕ} (h : Guard env folder floor (With held part file) w) :
    Guard env folder floor held w ∧ Left env folder part file w :=
  ⟨⟨h.env_eq, h.drawn, h.confined, fun p i hp => h.made p i (Or.inl hp),
    fun hq p i hp => h.present hq p i (Or.inl hp)⟩,
    h.made part file (Or.inr ⟨rfl, rfl⟩),
    fun hq => Or.inl (h.present hq part file (Or.inr ⟨rfl, rfl⟩))⟩

/-- Names apart in the file system, while the others leave them alone. -/
def Apart (env : Env) (folder : PathBuf) (held : PathBuf → ℕ → Prop) (part : PathBuf) : Prop :=
  env.LeavesStaging folder → ∀ path inode, held path inode → env.canon path ≠ env.canon part

theorem With.staged {k : ℕ} (file : ℕ) (hst : Staged env folder held)
    (hpart : part = staging env folder k) : Staged env folder (With held part file) := by
  rintro path inode (hp | ⟨rfl, -⟩)
  · exact hst path inode hp
  · exact ⟨k, hpart⟩

/-- One attempt to publish: a success takes only a free name in the folder, and
may take the staging name away. -/
theorem publishNoReplace_guard (rename : Bool) {part destination : PathBuf} {file : ℕ}
    (hst : Staged env folder (With held part file)) (hapart : Apart env folder held part)
    (hinside : folder.Inside destination) :
    Triple (Guard env folder floor (With held part file)) (publishNoReplace rename part destination)
      (fun _ w => Guard env folder floor held w ∧ Left env folder part file w)
      (fun _ => Guard env folder floor (With held part file)) := by
  refine FileTransfers.triple_call (stable_guard hst) fun w h => ?_
  obtain ⟨hheld, hleft⟩ := h.forget
  obtain ⟨before, hmade⟩ := hleft.1
  have hentry : env.LeavesStaging folder → w.entry part = some (.file file) :=
    fun hq => h.present hq part file (Or.inr ⟨rfl, rfl⟩)
  split
  · refine ⟨fun a ha => ?_, fun e _ => h⟩
    cases ha
  · refine ⟨fun a ha => ?_, fun e _ => h⟩
    cases ha
  · rename_i e hpart hdest
    -- The world once the new name is there.
    have hpub : ∀ q i, With held part file q i →
        Made ((w.setEntry destination (some e)).did
          (.published destination (w.fs.read e) (w.entry destination))) q i :=
      fun q i hq => (h.made q i hq).did _
    have hconf : Confined env folder (w.effects ++
        [.published destination (w.fs.read e) (w.entry destination)]) :=
      h.confined.snoc ⟨hinside, hdest⟩
    split
    · refine ⟨fun a _ => ⟨⟨h.env_eq, h.drawn, hconf.snoc ?_, ?_, ?_⟩, ?_, ?_⟩, fun e he => ?_⟩
      · refine ⟨file, before, List.mem_append_left _ hmade, fun hq => ?_⟩
        rw [hentry hq] at hpart
        exact (Option.some.inj hpart).symm
      · exact fun q i hq => (hpub q i (Or.inl hq)).did _
      · intro hq q i hp
        show ((w.setEntry destination (some e)).setEntry part none).entry q = _
        rw [entry_setEntry, if_neg]
        · exact h.entry_setEntry hq hdest _ (Or.inl hp)
        · show w.env.canon q ≠ w.env.canon part
          rw [h.env_eq]
          exact hapart hq q i hp
      · exact (hpub part file (Or.inr ⟨rfl, rfl⟩)).did _
      · intro hq
        right
        show ((w.setEntry destination (some e)).setEntry part none).entry part = _
        rw [entry_setEntry, if_pos rfl]
      · cases he
    · split
      · refine ⟨fun a ha => ?_, fun e _ => h⟩
        cases ha
      · refine ⟨fun a _ => Guard.forget ⟨h.env_eq, h.drawn, hconf, hpub, ?_⟩, fun e he => ?_⟩
        · exact fun hq q i hp => h.entry_setEntry hq hdest _ hp
        · cases he

theorem removeFile_guard {file k : ℕ} (hst : Staged env folder held)
    (hpart : part = staging env folder k) (hapart : Apart env folder held part)
    (h : Guard env folder floor held w) (hleft : Left env folder part file w) :
    Guard env folder floor held (removeFile part w).2 := by
  have hnext := stable_guard hst w h
  obtain ⟨before, hmade⟩ := hleft.1
  have hentry : env.LeavesStaging folder → ∀ e, w.next.entry part = some e → e = .file file := by
    intro hq e he
    subst hpart
    rw [h.entry_next hq k] at he
    rcases hleft.2 hq with hp | hp
    · rw [hp] at he
      exact (Option.some.inj he).symm
    · rw [hp] at he
      cases he
  unfold removeFile call
  split
  · exact hnext
  · dsimp only
    split
    · exact hnext
    · exact hnext
    · rename_i inode he
      refine ⟨hnext.env_eq, hnext.drawn, hnext.confined.snoc ⟨file, before, hmade, fun hq => hentry hq _ he⟩,
        fun q i hq => (hnext.made q i hq).did _, ?_⟩
      intro hq q i hp
      show (w.next.setEntry part none).entry q = _
      rw [entry_setEntry, if_neg]
      · exact hnext.present hq q i hp
      · show w.env.canon q ≠ w.env.canon part
        rw [h.env_eq]
        exact hapart hq q i hp

theorem publish_guard (p : Platform) (ft : FileTransfers) {file : ℕ} {name : Text}
    (hname : Plain name) (hst : Staged env ft.downloads (With held part file))
    (hapart : Apart env ft.downloads held part) (tries : ℕ) {destination : PathBuf}
    (hinside : ft.downloads.Inside destination) :
    Triple (Guard env ft.downloads floor (With held part file)) (ft.publish p part name tries destination)
      (fun _ w => Guard env ft.downloads floor held w ∧ Left env ft.downloads part file w)
      (fun _ => Guard env ft.downloads floor (With held part file)) := by
  induction tries generalizing destination with
  | zero => exact Triple.throw fun w hw => hw
  | succ tries ih =>
    refine Triple.bind (Q := fun result w => match result with
      | .ok _ => Guard env ft.downloads floor held w ∧ Left env ft.downloads part file w
      | .error _ => Guard env ft.downloads floor (With held part file) w)
      (Triple.attempt (publishNoReplace_guard p.rename hst hapart hinside)) ?_
    intro result
    cases result with
    | ok u => exact Triple.pure fun w hw => hw
    | error e =>
      refine Triple.ite (fun _ => ?_) (fun _ => Triple.throw fun w hw => hw)
      refine Triple.bind (freePath_guard p ft hname hst) fun destination => ?_
      exact Triple.of_pure fun hfree => ih hfree.1

theorem place_guard (p : Platform) (ft : FileTransfers) {r : Receiving}
    (hst : Staged env ft.downloads (With held r.part r.file))
    (hapart : Apart env ft.downloads held r.part) (hinside : ft.downloads.Inside r.finalPath)
    (synced : Except Fault Unit) :
    Triple (Guard env ft.downloads floor (With held r.part r.file)) (ft.place p r synced)
      (fun _ w => Guard env ft.downloads floor held w ∧ Left env ft.downloads r.part r.file w)
      (fun _ => Guard env ft.downloads floor (With held r.part r.file)) := by
  have hstable : Stable (Guard env ft.downloads floor (With held r.part r.file)) :=
    stable_guard hst
  have hread : Triple (Guard env ft.downloads floor (With held r.part r.file)) (readAll r.part)
      (fun _ => Guard env ft.downloads floor (With held r.part r.file))
      (fun _ => Guard env ft.downloads floor (With held r.part r.file)) := by
    refine FileTransfers.triple_call hstable fun w hw => ?_
    split <;> exact ⟨fun a _ => hw, fun e _ => hw⟩
  refine Triple.bind
    (Triple.ofExcept (fun _ w _ hw => hw) (fun _ w _ hw => hw)) fun _ => ?_
  refine Triple.bind (Q := fun _ => Guard env ft.downloads floor (With held r.part r.file))
    (Triple.bind hread fun contents => Triple.ite (fun _ => Triple.throw fun w hw => hw)
      (fun _ => Triple.pure fun w hw => hw)) fun _ => ?_
  refine Triple.bind (Q := fun _ => Guard env ft.downloads floor (With held r.part r.file)) ?_
    fun _ => ?_
  · unfold FileTransfers.restoreModified
    split
    · intro w hw
      unfold setModified
      split
      · exact ⟨fun a _ => hw, fun e _ => hw⟩
      · exact ⟨fun a _ => hstable w hw, fun e _ => hstable w hw⟩
    · exact Triple.pure fun w hw => hw
  · obtain ⟨name, hname, hfinal⟩ := hinside
    rw [hfinal, PathBuf.fileName_child]
    exact publish_guard p ft hname hst hapart 1000 ⟨name, hname, rfl⟩

/-- **A finished receive leaves the others' staging files alone** and takes its
own away. -/
theorem settle_guard (p : Platform) (ft : FileTransfers) {r : Receiving} {k : ℕ}
    (hst : Staged env ft.downloads held) (hpart : r.part = staging env ft.downloads k)
    (hapart : Apart env ft.downloads held r.part) (hinside : ft.downloads.Inside r.finalPath)
    (h : Guard env ft.downloads floor (With held r.part r.file) w) :
    Guard env ft.downloads floor held (ft.settle p r w).2 := by
  have hst' := With.staged r.file hst hpart
  have hsync : Guard env ft.downloads floor (With held r.part r.file) (syncAll r.file w).2 := by
    unfold syncAll call
    split
    · exact stable_guard hst' w h
    · exact stable_guard hst' w h
  have hplace := place_guard p ft hst' hapart hinside (syncAll r.file w).1 _ hsync
  have hafter : Guard env ft.downloads floor held (ft.place p r (syncAll r.file w).1
      (syncAll r.file w).2).2 ∧ Left env ft.downloads r.part r.file
      (ft.place p r (syncAll r.file w).1 (syncAll r.file w).2).2 := by
    cases hres : (ft.place p r (syncAll r.file w).1 (syncAll r.file w).2).1 with
    | ok path => exact hplace.1 path hres
    | error e => exact (hplace.2 e hres).forget
  exact removeFile_guard hst hpart hapart hafter.1 hafter.2

/-- What an opened staging file brings: a destination no one else has, and a
staging name drawn just now. -/
structure Opened (env : Env) (ft : FileTransfers) (floor : ℕ) (held : PathBuf → ℕ → Prop)
    (opened : PathBuf × PathBuf × ℕ) (k : ℕ) (w : World) : Prop where
  free : ft.Free opened.1
  drawn : floor ≤ k
  part : opened.2.1 = staging env ft.downloads k
  guard : Guard env ft.downloads (k + 1) (With held opened.2.1 opened.2.2) w
  apart : Apart env ft.downloads held opened.2.1

theorem drawUuid_guard :
    Triple (Guard env folder floor held) FileTransfers.drawUuid
      (fun uuid w => ∃ k, floor ≤ k ∧ uuid = env.uuids k ∧ Guard env folder (k + 1) held w)
      (fun _ => Guard env folder floor held) := by
  intro w h
  refine ⟨fun uuid hu => ?_, fun e he => ?_⟩
  · cases hu
    exact ⟨w.drawn, h.drawn, by rw [h.env_eq], h.env_eq, le_rfl, h.confined, h.made, h.present⟩
  · cases he

theorem Guard.weaken {floor' : ℕ} (h : Guard env folder floor held w) (hle : floor' ≤ floor) :
    Guard env folder floor' held w :=
  ⟨h.env_eq, le_trans hle h.drawn, h.confined, h.made, h.present⟩

theorem openPart_guard (p : Platform) (ft : FileTransfers) {name : Text} (hname : Plain name)
    (hst : Staged env ft.downloads held) :
    Triple (Guard env ft.downloads floor held) (ft.openPart p name)
      (fun opened w => ∃ k, Opened env ft floor held opened k w)
      (fun _ => Guard env ft.downloads floor held) := by
  refine Triple.bind (freePath_guard p ft hname hst) fun finalPath => ?_
  refine Triple.of_pure fun hfree => ?_
  refine Triple.bind drawUuid_guard fun uuid => ?_
  rintro w ⟨k, hk, rfl, hw⟩
  have hpart : finalPath.withFileName p.os (FileTransfers.stagingName (env.uuids k)) =
      staging env ft.downloads k := by
    obtain ⟨n, hn, rfl⟩ := hfree.1
    exact withFileName_child p.os ft.downloads n (FileTransfers.plain_stagingName env k)
  rw [hpart]
  have hcreate : Triple (Guard env ft.downloads (k + 1) held)
      (do
        let file ← createNew (staging env ft.downloads k)
        return (finalPath, staging env ft.downloads k, file))
      (fun opened w => ∃ k, Opened env ft floor held opened k w)
      (fun _ => Guard env ft.downloads floor held) := by
    refine Triple.bind (Q := fun file w => Guard env ft.downloads (k + 1)
      (With held (staging env ft.downloads k) file) w ∧
      Apart env ft.downloads held (staging env ft.downloads k)) ?_ fun file => ?_
    · exact (createNew_guard hst k).consequence (fun _ hw => hw) (fun _ _ hw => hw)
        (fun _ _ hw => hw.weaken (by omega))
    · exact Triple.pure fun w hw => ⟨k, hfree, hk, rfl, hw.1, hw.2⟩
  exact hcreate w hw

end Guard

/-! ### The engine -/

/-- The staging files of the active receives. -/
def active (ft : FileTransfers) (path : PathBuf) (inode : ℕ) : Prop :=
  ∃ (id : ℕ) (r : Receiving), ft.receiving[id]? = some r ∧ r.part = path ∧ r.file = inode

/-- What every state of the receiving side keeps. -/
structure Sheltered (env : Env) (ft : FileTransfers) (w : World) : Prop where
  guard : Guard env ft.downloads w.drawn (active ft) w
  staged : ∀ (id : ℕ) (r : Receiving), ft.receiving[id]? = some r →
    ∃ k < w.drawn, r.part = staging env ft.downloads k
  inside : ∀ (id : ℕ) (r : Receiving), ft.receiving[id]? = some r →
    ft.downloads.Inside r.finalPath
  parts : ∀ (a b : ℕ) (r s : Receiving), ft.receiving[a]? = some r → ft.receiving[b]? = some s →
    a ≠ b → r.part ≠ s.part ∧ (env.LeavesStaging ft.downloads → env.canon r.part ≠ env.canon s.part)
  finals : ∀ (a b : ℕ) (r s : Receiving), ft.receiving[a]? = some r → ft.receiving[b]? = some s →
    a ≠ b → r.finalPath ≠ s.finalPath

namespace Sheltered

variable {env : Env} {ft : FileTransfers} {w : World}

theorem staged_active (h : Sheltered env ft w) : Staged env ft.downloads (active ft) := by
  rintro path inode ⟨id, r, hr, rfl, -⟩
  obtain ⟨k, -, hk⟩ := h.staged id r hr
  exact ⟨k, hk⟩

theorem erase_active (id : ℕ) {path : PathBuf} {inode : ℕ}
    (hp : active { ft with receiving := ft.receiving.erase id } path inode) :
    ∃ (a : ℕ) (r : Receiving), a ≠ id ∧ ft.receiving[a]? = some r ∧ r.part = path ∧
      r.file = inode := by
  obtain ⟨a, r, hr, hpart, hfile⟩ := hp
  rw [FileTransfers.getElem?_receiving_erase] at hr
  split at hr
  · cases hr
  · rename_i hne
    exact ⟨a, r, Ne.symm hne, hr, hpart, hfile⟩

theorem apart_erase (h : Sheltered env ft w) {id : ℕ} {r : Receiving}
    (hr : ft.receiving[id]? = some r) :
    Apart env ft.downloads (active { ft with receiving := ft.receiving.erase id }) r.part := by
  intro hq path inode hp
  obtain ⟨a, s, hne, hs, rfl, -⟩ := erase_active id hp
  exact (h.parts a id s r hs hr hne).2 hq

variable {w' : World}

/-- Dropping a receive: what is left is sheltered in any world that guards it. -/
theorem erase (h : Sheltered env ft w) (id : ℕ) (hguard : Guard env ft.downloads w.drawn
      (active { ft with receiving := ft.receiving.erase id }) w') :
    Sheltered env { ft with receiving := ft.receiving.erase id } w' := by
  have hsub : ∀ (a : ℕ) (s : Receiving), (ft.receiving.erase id)[a]? = some s →
      ft.receiving[a]? = some s := by
    intro a s hs
    rw [FileTransfers.getElem?_receiving_erase] at hs
    split at hs
    · cases hs
    · exact hs
  refine ⟨hguard.rebase, ?_, fun a s hs => h.inside a s (hsub a s hs), ?_, ?_⟩
  · intro a s hs
    obtain ⟨k, hk, heq⟩ := h.staged a s (hsub a s hs)
    exact ⟨k, lt_of_lt_of_le hk hguard.drawn, heq⟩
  · exact fun a b s t hs ht hne => h.parts a b s t (hsub a s hs) (hsub b t ht) hne
  · exact fun a b s t hs ht hne => h.finals a b s t (hsub a s hs) (hsub b t ht) hne

theorem guard_with {floor id : ℕ} {r : Receiving} (hr : ft.receiving[id]? = some r)
    (hw : Guard env ft.downloads floor (active ft) w') :
    Guard env ft.downloads floor
      (With (active { ft with receiving := ft.receiving.erase id }) r.part r.file) w' := by
  have hsub : ∀ path inode,
      With (active { ft with receiving := ft.receiving.erase id }) r.part r.file path inode →
        active ft path inode := by
    rintro path inode (hp | ⟨rfl, rfl⟩)
    · obtain ⟨a, s, -, hs, rfl, rfl⟩ := erase_active id hp
      exact ⟨a, s, hs, rfl, rfl⟩
    · exact ⟨id, r, hr, rfl, rfl⟩
  exact ⟨hw.env_eq, hw.drawn, hw.confined, fun q i hq => hw.made q i (hsub q i hq),
    fun hl q i hq => hw.present hl q i (hsub q i hq)⟩

theorem update (h : Sheltered env ft w) {id : ℕ} {r s : Receiving}
    (hr : ft.receiving[id]? = some r) (hpart : s.part = r.part) (hfile : s.file = r.file)
    (hfinal : s.finalPath = r.finalPath)
    (hguard : Guard env ft.downloads w.drawn (active ft) w') :
    Sheltered env { ft with receiving := ft.receiving.insert id s } w' := by
  have hback : ∀ (a : ℕ) (t : Receiving), (ft.receiving.insert id s)[a]? = some t →
      ∃ t', ft.receiving[a]? = some t' ∧ t.part = t'.part ∧ t.file = t'.file ∧
        t.finalPath = t'.finalPath := by
    intro a t ht
    rw [FileTransfers.getElem?_receiving_insert] at ht
    split at ht
    · rename_i hid
      cases ht
      exact ⟨r, hid ▸ hr, hpart, hfile, hfinal⟩
    · exact ⟨t, ht, rfl, rfl, rfl⟩
  have hactive : ∀ path inode, active { ft with receiving := ft.receiving.insert id s } path inode →
      active ft path inode := by
    rintro path inode ⟨a, t, ht, rfl, rfl⟩
    obtain ⟨t', ht', hp, hf, -⟩ := hback a t ht
    exact ⟨a, t', ht', hp.symm, hf.symm⟩
  refine ⟨⟨hguard.env_eq, le_rfl, hguard.confined, fun q i hq => hguard.made q i (hactive q i hq),
    fun hl q i hq => hguard.present hl q i (hactive q i hq)⟩, ?_, ?_, ?_, ?_⟩
  · intro a t ht
    obtain ⟨t', ht', hp, -, -⟩ := hback a t ht
    obtain ⟨k, hk, heq⟩ := h.staged a t' ht'
    exact ⟨k, lt_of_lt_of_le hk hguard.drawn, hp.trans heq⟩
  · intro a t ht
    obtain ⟨t', ht', -, -, hf⟩ := hback a t ht
    exact hf ▸ h.inside a t' ht'
  · intro a b t u ht hu hne
    obtain ⟨t', ht', hpt, -, -⟩ := hback a t ht
    obtain ⟨u', hu', hpu, -, -⟩ := hback b u hu
    rw [hpt, hpu]
    exact h.parts a b t' u' ht' hu' hne
  · intro a b t u ht hu hne
    obtain ⟨t', ht', -, -, hft⟩ := hback a t ht
    obtain ⟨u', hu', -, -, hfu⟩ := hback b u hu
    rw [hft, hfu]
    exact h.finals a b t' u' ht' hu' hne

theorem congr (h : Sheltered env ft w) {ft' : FileTransfers} (hd : ft'.downloads = ft.downloads)
    (hr : ft'.receiving = ft.receiving) : Sheltered env ft' w := by
  obtain ⟨enabled, downloads, nextId, sending, receiving, updates⟩ := ft'
  subst hd hr
  exact { h with }

theorem abandon (h : Sheltered env ft w) (id : ℕ) :
    Sheltered env (ft.abandon id w).1 (ft.abandon id w).2 := by
  unfold FileTransfers.abandon
  split
  · exact h
  · rename_i r hr
    obtain ⟨k, -, hk⟩ := h.staged id r hr
    obtain ⟨hguard, hleft⟩ := (guard_with hr h.guard).forget
    have hst : Staged env ft.downloads (active { ft with receiving := ft.receiving.erase id }) := by
      intro path inode hp
      obtain ⟨a, s, -, hs, rfl, rfl⟩ := erase_active id hp
      exact h.staged_active _ _ ⟨a, s, hs, rfl, rfl⟩
    exact h.erase id (removeFile_guard hst hk (h.apart_erase hr) hguard hleft)

theorem failReceive (h : Sheltered env ft w) (id : ℕ) (error : String) :
    Sheltered env (ft.failReceive id error w).1 (ft.failReceive id error w).2 := by
  unfold FileTransfers.failReceive
  split
  · exact h.abandon id
  · exact (h.congr rfl rfl : Sheltered env (ft.report _) w).abandon id

theorem finish (h : Sheltered env ft w) (p : Platform) (id : ℕ) :
    Sheltered env (ft.finish p id w).1.2 (ft.finish p id w).2 := by
  unfold FileTransfers.finish
  split
  · exact h
  · rename_i r hr
    obtain ⟨k, -, hk⟩ := h.staged id r hr
    have hst : Staged env ft.downloads (active { ft with receiving := ft.receiving.erase id }) := by
      intro path inode hp
      obtain ⟨a, s, -, hs, rfl, rfl⟩ := erase_active id hp
      exact h.staged_active _ _ ⟨a, s, hs, rfl, rfl⟩
    have hguard := settle_guard p { ft with receiving := ft.receiving.erase id } hst hk
      (h.apart_erase hr) (h.inside id r hr) (guard_with hr h.guard)
    have hkept := h.erase id hguard
    dsimp only
    split
    · rename_i heq
      rw [heq] at hkept
      exact hkept.congr rfl rfl
    · rename_i heq
      rw [heq] at hkept
      exact hkept.congr rfl rfl

theorem staging_inj (huuid : Function.Injective env.uuids) {folder : PathBuf} {j k : ℕ}
    (h : staging env folder j = staging env folder k) : j = k := by
  have hname := PathBuf.child_inj h
  simp only [FileTransfers.stagingName, List.append_assoc] at hname
  have htail := List.append_cancel_left hname
  exact huuid (List.append_cancel_right htail)

theorem startReceiving (h : Sheltered env ft w) (huuid : Function.Injective env.uuids) (now : ℕ)
    (offer : FileOffer) {opened : PathBuf × PathBuf × ℕ} {k : ℕ}
    (ho : Opened env ft w.drawn (active ft) opened k w') :
    Sheltered env (ft.startReceiving now offer opened) w' := by
  -- A receive of the new engine is an old one, or the one just opened.
  have hback : ∀ (a : ℕ) (t : Receiving),
      (ft.startReceiving now offer opened).receiving[a]? = some t →
      (a = offer.transferId ∧ t.part = opened.2.1 ∧ t.file = opened.2.2 ∧
        t.finalPath = opened.1) ∨ ft.receiving[a]? = some t := by
    intro a t ht
    have hins := FileTransfers.getElem?_receiving_insert ft offer.transferId a
      ⟨offer.name, opened.2.2, opened.2.1, opened.1, Ranges.empty, 0, offer.size, offer.blake3,
        offer.modifiedSecs, now⟩
    have ht' := hins.symm.trans ht
    split at ht'
    · rename_i hid
      cases ht'
      exact Or.inl ⟨hid.symm, rfl, rfl, rfl⟩
    · exact Or.inr ht'
  have hactive : ∀ path inode, active (ft.startReceiving now offer opened) path inode →
      With (active ft) opened.2.1 opened.2.2 path inode := by
    rintro path inode ⟨a, t, ht, rfl, rfl⟩
    rcases hback a t ht with ⟨-, hp, hf, -⟩ | ht
    · exact Or.inr ⟨hp, hf⟩
    · exact Or.inl ⟨a, t, ht, rfl, rfl⟩
  have hguard := ho.guard
  -- The fresh staging name is none of the old ones.
  have hnew : ∀ (a : ℕ) (t : Receiving), ft.receiving[a]? = some t →
      opened.2.1 ≠ t.part ∧
        (env.LeavesStaging ft.downloads → env.canon t.part ≠ env.canon opened.2.1) := by
    intro a t ht
    refine ⟨fun heq => ?_, fun hl => ho.apart hl _ _ ⟨a, t, ht, rfl, rfl⟩⟩
    obtain ⟨j, hj, hpart⟩ := h.staged a t ht
    rw [ho.part, hpart] at heq
    have := staging_inj huuid heq
    have := ho.drawn
    omega
  refine ⟨⟨hguard.env_eq, le_rfl, hguard.confined, fun q i hq => hguard.made q i (hactive q i hq),
    fun hl q i hq => hguard.present hl q i (hactive q i hq)⟩, ?_, ?_, ?_, ?_⟩
  · intro a t ht
    rcases hback a t ht with ⟨-, hp, -, -⟩ | ht
    · exact ⟨k, hguard.drawn, hp.trans ho.part⟩
    · obtain ⟨j, hj, hpart⟩ := h.staged a t ht
      have := hguard.drawn
      have := ho.drawn
      exact ⟨j, by omega, hpart⟩
  · intro a t ht
    rcases hback a t ht with ⟨-, -, -, hf⟩ | ht
    · rw [hf]
      exact ho.free.1
    · exact h.inside a t ht
  · intro a b t u ht hu hne
    rcases hback a t ht with ⟨ha, hp, -, -⟩ | ht
    · rcases hback b u hu with ⟨hb, -⟩ | hu
      · exact absurd (ha.trans hb.symm) hne
      · rw [hp]
        exact ⟨(hnew b u hu).1, fun hl => ((hnew b u hu).2 hl).symm⟩
    · rcases hback b u hu with ⟨-, hp, -, -⟩ | hu
      · rw [hp]
        exact ⟨(hnew a t ht).1.symm, (hnew a t ht).2⟩
      · exact h.parts a b t u ht hu hne
  · intro a b t u ht hu hne
    rcases hback a t ht with ⟨ha, -, -, hf⟩ | ht
    · rcases hback b u hu with ⟨hb, -⟩ | hu
      · exact absurd (ha.trans hb.symm) hne
      · rw [hf]
        exact (ho.free.2 b u hu).symm
    · rcases hback b u hu with ⟨-, -, -, hf⟩ | hu
      · rw [hf]
        exact ho.free.2 a t ht
      · exact h.finals a b t u ht hu hne

theorem move (h : Sheltered env ft w)
    (hguard : Guard env ft.downloads w.drawn (active ft) w') : Sheltered env ft w' := by
  refine ⟨hguard.rebase, fun a t ht => ?_, h.inside, h.parts, h.finals⟩
  obtain ⟨k, hk, heq⟩ := h.staged a t ht
  exact ⟨k, lt_of_lt_of_le hk hguard.drawn, heq⟩

theorem rejectOffer (h : Sheltered env ft w) (offer : FileOffer) (error : String) :
    Sheltered env (ft.rejectOffer offer error) w := by
  unfold FileTransfers.rejectOffer
  split
  · exact h
  · exact h.congr rfl rfl

theorem onOffer (h : Sheltered env ft w) (huuid : Function.Injective env.uuids) (p : Platform)
    (now : ℕ) (offer : FileOffer) :
    Sheltered env (ft.onOffer p now offer w).1.2 (ft.onOffer p now offer w).2 := by
  unfold FileTransfers.onOffer
  split
  · exact h.rejectOffer _ _
  split
  · exact h.rejectOffer _ _
  · rename_i hsafe
    have hname : Plain offer.name := plain_of_hasSafeName (by simpa using hsafe)
    split
    · exact h.rejectOffer _ _
    split
    · exact h.rejectOffer _ _
    · have hopen := openPart_guard p ft hname h.staged_active w h.guard
      split
      · rename_i e w' heq
        rw [heq] at hopen
        exact (h.move (hopen.2 e rfl)).rejectOffer _ _
      · rename_i opened w' heq
        rw [heq] at hopen
        obtain ⟨k, hk⟩ := hopen.1 opened rfl
        exact h.startReceiving huuid now offer hk

theorem progress (h : Sheltered env ft w) {id : ℕ} {r s : Receiving}
    (hr : ft.receiving[id]? = some r) (hpart : s.part = r.part) (hfile : s.file = r.file)
    (hfinal : s.finalPath = r.finalPath) (hguard : Guard env ft.downloads w.drawn (active ft) w') :
    Sheltered env (ft.progress id s) w' := by
  have hsame : (FileTransfers.acknowledge s).part = s.part ∧
      (FileTransfers.acknowledge s).file = s.file ∧
      (FileTransfers.acknowledge s).finalPath = s.finalPath := by
    unfold FileTransfers.acknowledge
    split <;> exact ⟨rfl, rfl, rfl⟩
  exact (h.update hr (hsame.1.trans hpart) (hsame.2.1.trans hfile) (hsame.2.2.trans hfinal)
    hguard).congr rfl rfl

theorem onChunk (h : Sheltered env ft w) (p : Platform) (now : ℕ) (header : FileChunkHeader)
    (data : List UInt8) :
    Sheltered env (ft.onChunk p now header data w).1.2 (ft.onChunk p now header data w).2 := by
  unfold FileTransfers.onChunk
  split
  · exact h
  · rename_i r hr
    split
    · exact h.failReceive _ _
    · have hwrite := writeAt_guard h.staged_active ⟨header.transferId, r, hr, rfl, rfl⟩
        header.offset data h.guard
      split
      · rename_i e w' heq
        rw [heq] at hwrite
        exact (h.move hwrite).failReceive _ _
      · rename_i w' heq
        rw [heq] at hwrite
        have hnoted := h.progress hr (s := FileTransfers.note r now header.offset
          (saturatingAdd header.offset data.length)) rfl rfl rfl hwrite
        dsimp only
        split
        · have hfinish := hnoted.finish p header.transferId
          split
          · rename_i heq
            rw [heq] at hfinish
            exact hfinish
          · rename_i heq
            rw [heq] at hfinish
            exact hfinish
        · exact hnoted

theorem expireReceive (now : ℕ) {st : FileTransfers × World} (h : Sheltered env st.1 st.2)
    (id : ℕ) : Sheltered env (FileTransfers.expireReceive now st id).1
      (FileTransfers.expireReceive now st id).2 := by
  unfold FileTransfers.expireReceive
  split
  · exact h
  · split
    · exact h.failReceive _ _
    · exact h

theorem expireSend (h : Sheltered env ft w) (now id : ℕ) :
    Sheltered env (FileTransfers.expireSend now ft id) w := by
  unfold FileTransfers.expireSend
  split
  · exact h
  · split
    · exact h.congr rfl rfl
    · exact h

theorem expireStalled (h : Sheltered env ft w) (now : ℕ) :
    Sheltered env (ft.expireStalled now w).1 (ft.expireStalled now w).2 := by
  have hsends : ∀ (ids : List ℕ) (ft : FileTransfers), Sheltered env ft w →
      Sheltered env (ids.foldl (FileTransfers.expireSend now) ft) w := by
    intro ids
    induction ids with
    | nil => exact fun ft h => h
    | cons id ids ih => exact fun ft h => ih _ (h.expireSend now id)
  have hreceives : ∀ (ids : List ℕ) (st : FileTransfers × World), Sheltered env st.1 st.2 →
      Sheltered env (ids.foldl (FileTransfers.expireReceive now) st).1
        (ids.foldl (FileTransfers.expireReceive now) st).2 := by
    intro ids
    induction ids with
    | nil => exact fun st h => h
    | cons id ids ih => exact fun st h => ih _ (expireReceive now h id)
  exact hreceives _ _ (hsends _ _ h)

/-- **One call of the engine keeps it sheltered.** -/
theorem apply {p : Platform} {st : FileTransfers × World} (h : Sheltered env st.1 st.2)
    (huuid : Function.Injective env.uuids) (op : FileOp) :
    Sheltered env (FileTransfers.apply p st op).2.1 (FileTransfers.apply p st op).2.2 := by
  cases op with
  | send now source =>
    obtain ⟨hr, hd⟩ := FileTransfers.sendFile_receiving p.blake3 st.1 now source
    exact h.congr hd hr
  | pump now pick reads =>
    obtain ⟨hr, hd⟩ := FileTransfers.pump_receiving st.1 now pick reads
    exact h.congr hd hr
  | ack now ack =>
    obtain ⟨hr, hd⟩ := FileTransfers.onAck_receiving st.1 now ack
    exact h.congr hd hr
  | offer now offer => exact h.onOffer huuid p now offer
  | chunk now header data => exact h.onChunk p now header data
  | expire now => exact h.expireStalled now

theorem start (env : Env) (fs : FileSystem) (folder : PathBuf) (enabled : Bool) :
    Sheltered env (FileTransfers.new folder enabled) (World.start env fs) := by
  refine ⟨⟨rfl, le_rfl, each_nil _, ?_, ?_⟩, ?_, ?_, ?_, ?_⟩
  · rintro path inode ⟨id, r, hr, -⟩
    simp [FileTransfers.new] at hr
  · rintro - path inode ⟨id, r, hr, -⟩
    simp [FileTransfers.new] at hr
  · simp [FileTransfers.new]
  · simp [FileTransfers.new]
  · simp [FileTransfers.new]
  · simp [FileTransfers.new]

end Sheltered

/-- The engine after a sequence of calls. -/
def FileTransfers.after (p : Platform) (env : Env) (fs : FileSystem) (folder : PathBuf)
    (enabled : Bool) (ops : List FileOp) : FileTransfers × World :=
  run (fun st op => (FileTransfers.apply p st op).2)
    (FileTransfers.new folder enabled, World.start env fs) ops

theorem sheltered_after (p : Platform) (env : Env) (huuid : Function.Injective env.uuids)
    (fs : FileSystem) (folder : PathBuf) (enabled : Bool) (ops : List FileOp) :
    Sheltered env (FileTransfers.after p env fs folder enabled ops).1
      (FileTransfers.after p env fs folder enabled ops).2 :=
  run_invariant (P := fun st : FileTransfers × World => Sheltered env st.1 st.2)
    (fun _ op h => h.apply huuid op) (Sheltered.start env fs folder enabled) ops

theorem downloads_after (p : Platform) (env : Env) (fs : FileSystem) (folder : PathBuf)
    (enabled : Bool) (ops : List FileOp) :
    (FileTransfers.after p env fs folder enabled ops).1.downloads = folder :=
  run_invariant
    (fun st op h => (FileTransfers.apply_downloads p st op).trans h) rfl ops

/-- **The receiving side stays inside the download folder.**  Whatever a peer
sends and whatever other programs do, every effect was allowed when it happened
(for a removal: if the others leave staging names alone, what goes is the entry
the receiver made), and no two active receives share a path. -/
theorem receiver_confined (p : Platform) (env : Env) (huuid : Function.Injective env.uuids)
    (fs : FileSystem) (folder : PathBuf) (enabled : Bool) (ops : List FileOp) :
    Confined env folder (FileTransfers.after p env fs folder enabled ops).2.effects ∧
      ∀ (a b : ℕ) (r s : Receiving),
        (FileTransfers.after p env fs folder enabled ops).1.receiving[a]? = some r →
        (FileTransfers.after p env fs folder enabled ops).1.receiving[b]? = some s →
        a ≠ b → r.part ≠ s.part ∧ r.finalPath ≠ s.finalPath := by
  have h := sheltered_after p env huuid fs folder enabled ops
  have hfolder := downloads_after p env fs folder enabled ops
  have hconf := h.guard.confined
  rw [hfolder] at hconf
  refine ⟨hconf, fun a b r s hr hs hne => ?_⟩
  exact ⟨(h.parts a b r s hr hs hne).1, h.finals a b r s hr hs hne⟩

/-! ### A small machine -/

theorem mem_uuidChars_of_isDigit {c : Char} (h : c.isDigit) : c ∈ uuidChars := by
  have hle : 48 ≤ c.toNat ∧ c.toNat ≤ 57 := by
    simp only [Char.isDigit, Bool.and_eq_true, decide_eq_true_eq, ge_iff_le,
      UInt32.le_iff_toNat_le] at h
    exact h
  have hc := (Char.ofNat_toNat c).symm
  obtain ⟨h1, h2⟩ := hle
  generalize c.toNat = n at *
  subst hc
  interval_cases n <;> decide

/-- The start of every identifier of `Env.sample`. -/
def uuidStem : Text :=
  ['1', '0', '0', '0', '0', '0', '0', '0', '-', '0', '0', '0', '0', '-', '4', '0', '0', '0', '-',
    '8', '0', '0', '0', '-']

/-- A machine with numbered identifiers, given what happens around each call. -/
def Env.sample (turns : ℕ → Turn) : Env where
  canon := id
  turns := turns
  uuids k := uuidStem ++ Nat.toDigits 10 (10 ^ 11 + k)
  uuid_chars := by
    have hstem : ∀ c ∈ uuidStem, c ∈ uuidChars := by
      have hall : uuidStem.all (· ∈ uuidChars) = true := by decide
      simpa using hall
    intro k c hc
    rcases List.mem_append.mp hc with hc | hc
    · exact hstem c hc
    · exact mem_uuidChars_of_isDigit (Nat.isDigit_of_mem_toDigits (by decide) (by decide) hc)

theorem Env.sample_uuids_injective (turns : ℕ → Turn) :
    Function.Injective (Env.sample turns).uuids := by
  intro j k h
  have hdigits := congrArg (Nat.ofDigitChars 10 · 0) (List.append_cancel_left h)
  simp only [Nat.ofDigitChars_toDigits (b := 10) (by decide) (by decide)] at hdigits
  omega

/-- Nothing else happens. -/
def Turn.quiet : Turn := ⟨id, none, 0⟩

/-- A content hash that shows the contents. -/
def Platform.sample (os : Os) (rename : Bool) : Platform :=
  ⟨os, rename, fun bytes => bytes.map fun b => Char.ofNat b.toNat⟩

def FileSystem.blank : FileSystem := ⟨fun _ => none, fun _ => []⟩

/-- A download folder `/d`. -/
def PathBuf.sample : PathBuf := ⟨none, true, [.normal ['d']]⟩

/-- Two empty files of one name: the second is published under a numbered one. -/
theorem receiver_confined_two_files :
    let env := Env.sample fun _ => .quiet
    let ops : List FileOp := [.offer 0 ⟨1, ['a', '.', 'b'], 0, [], none⟩,
      .offer 0 ⟨2, ['a', '.', 'b'], 0, [], none⟩, .chunk 0 ⟨1, 0⟩ [], .chunk 0 ⟨2, 0⟩ []]
    let effects := (FileTransfers.after (.sample .windows true) env .blank .sample true ops).2.effects
    .published (PathBuf.sample.child ['a', ' ', '(', '2', ')', '.', 'b']) [] none ∈ effects ∧
      Confined env .sample effects := by
  intro env ops effects
  refine ⟨by decide +kernel, ?_⟩
  exact (receiver_confined (.sample .windows true) env (Env.sample_uuids_injective _) .blank
    .sample true ops).1

/-- Another program puts its own file under the active staging name just before
the receiver gives the transfer up: that file is removed.  And the folder itself
is made by the receiver, outside itself. -/
theorem replaced_staging_file_removed :
    let part := staging (Env.sample fun _ => .quiet) .sample 0
    let replace : FileSystem → FileSystem := fun fs =>
      { fs with entries := Function.update fs.entries part (some (.file 99)) }
    let env := Env.sample fun t => if t = 3 then ⟨replace, none, 0⟩ else .quiet
    let ops : List FileOp := [.offer 0 ⟨1, ['a'], 0, [], none⟩, .chunk 0 ⟨1, 0⟩ [7]]
    (FileTransfers.after (.sample .posix false) env .blank .sample true ops).2.effects =
        [.folder .sample, .created part 0 none, .removed part (.file 99)] ∧
      ¬ PathBuf.sample.Inside .sample := by
  refine ⟨by decide +kernel, ?_⟩
  rintro ⟨name, -, h⟩
  simp [PathBuf.sample, PathBuf.child] at h

end NebulaDesk
