/-
What the receiver publishes.

`publications` lists what the receiver has put under a final name.  Where other
programs leave the staging files alone, a receive that ends well adds exactly one
publication, of contents with the announced hash, and one that fails adds none
(`settle_publications`).
-/
import NebulaDesk.Agent.Confinement

namespace NebulaDesk

open Cmd

/-- The files published by these effects, each with its contents. -/
def publications (effects : List Effect) : List (PathBuf × List UInt8) :=
  effects.filterMap fun
    | .published path contents _ => some (path, contents)
    | _ => none

/-- Other programs leave the receiver's staging files alone, names and contents. -/
structure Env.LeavesFiles (env : Env) (folder : PathBuf) : Prop where
  names : env.LeavesStaging folder
  contents : ∀ (t k inode : ℕ) (fs : FileSystem),
    fs.entries (env.canon (staging env folder k)) = some (.file inode) →
      ((env.turns t).others fs).contents inode = fs.contents inode

theorem publications_append (l m : List Effect) :
    publications (l ++ m) = publications l ++ publications m :=
  List.filterMap_append

theorem publications_did_of_not (w : World) {e : Effect}
    (he : ∀ path contents before, e ≠ .published path contents before) :
    publications (w.did e).effects = publications w.effects := by
  rw [World.did, publications_append]
  cases e with
  | published path contents before => exact absurd rfl (he path contents before)
  | _ => exact List.append_nil _

/-- The world with a verified staging file in it. -/
structure Holding (env : Env) (part : PathBuf) (file : ℕ) (contents : List UInt8)
    (published : List (PathBuf × List UInt8)) (w : World) : Prop where
  env_eq : w.env = env
  entry : w.entry part = some (.file file)
  contents : w.fs.contents file = contents
  published : publications w.effects = published

section Holding

variable {env : Env} {folder : PathBuf} {part : PathBuf} {file k : ℕ} {contents : List UInt8}
  {published : List (PathBuf × List UInt8)} {w : World}

theorem stable_holding (hleaves : env.LeavesFiles folder) (hpart : part = staging env folder k) :
    Stable (Holding env part file contents published) := by
  intro w h
  have hentry : w.fs.entries (env.canon (staging env folder k)) = some (.file file) := by
    have := h.entry
    rw [World.entry, h.env_eq, hpart] at this
    exact this
  refine ⟨h.env_eq, ?_, ?_, h.published⟩
  · show ((w.env.turns w.tick).others w.fs).entries (w.env.canon part) = _
    rw [h.env_eq, hpart, hleaves.names]
    exact hentry
  · show ((w.env.turns w.tick).others w.fs).contents file = contents
    rw [h.env_eq, hleaves.contents _ _ _ _ hentry]
    exact h.contents

theorem Holding.entry_setEntry (h : Holding env part file contents published w) {q : PathBuf}
    (hfree : w.entry q = none) (e : Option Entry) :
    (w.setEntry q e).entry part = some (.file file) := by
  have hentry := h.entry
  rw [NebulaDesk.entry_setEntry, if_neg, hentry]
  intro heq
  have hsame : w.entry part = w.entry q := by rw [World.entry, World.entry, heq]
  rw [hsame, hfree] at hentry
  cases hentry

theorem Holding.makeFolder (h : Holding env part file contents published w) (q : PathBuf) :
    Holding env part file contents published (makeFolder w q) := by
  unfold NebulaDesk.makeFolder
  split
  · rename_i hnone
    refine ⟨h.env_eq, h.entry_setEntry (Option.isNone_iff_eq_none.mp hnone) _, h.contents, ?_⟩
    rw [publications_did_of_not _ (by simp)]
    exact h.published
  · exact h

/-- One attempt to publish: a success adds the contents held. -/
theorem publishNoReplace_holding (hleaves : env.LeavesFiles folder)
    (hpart : part = staging env folder k) (rename : Bool) (destination : PathBuf) :
    Triple (Holding env part file contents published) (publishNoReplace rename part destination)
      (fun _ w => publications w.effects = published ++ [(destination, contents)])
      (fun _ => Holding env part file contents published) := by
  refine FileTransfers.triple_call (stable_holding hleaves hpart) fun w h => ?_
  split
  · refine ⟨fun a ha => ?_, fun e _ => h⟩
    cases ha
  · refine ⟨fun a ha => ?_, fun e _ => h⟩
    cases ha
  · rename_i e hentry hfree
    have he : e = .file file := Option.some.inj (hentry.symm.trans h.entry)
    have hread : w.fs.read e = contents := by
      rw [he]
      exact h.contents
    have hadd : publications (w.effects ++
        [.published destination (w.fs.read e) (w.entry destination)]) =
          published ++ [(destination, contents)] := by
      rw [publications_append, h.published, hread]
      rfl
    split
    · refine ⟨fun a _ => ?_, fun e he => ?_⟩
      · show publications (_ ++ [Effect.removed part e]) = _
        rw [publications_append]
        exact (List.append_nil _).trans hadd
      · cases he
    · split
      · refine ⟨fun a ha => ?_, fun e _ => h⟩
        cases ha
      · refine ⟨fun a _ => hadd, fun e he => ?_⟩
        cases he

theorem publish_holding (hleaves : env.LeavesFiles folder) (hpart : part = staging env folder k)
    (p : Platform) (ft : FileTransfers) {name : Text} (hname : Plain name) (tries : ℕ)
    (destination : PathBuf) :
    Triple (Holding env part file contents published) (ft.publish p part name tries destination)
      (fun path w => publications w.effects = published ++ [(path, contents)])
      (fun _ w => publications w.effects = published) := by
  have hstable : Stable (Holding env part file contents published) :=
    stable_holding hleaves hpart
  induction tries generalizing destination with
  | zero => exact Triple.throw fun w hw => hw.published
  | succ tries ih =>
    refine Triple.bind (Q := fun result w => match result with
      | .ok _ => publications w.effects = published ++ [(destination, contents)]
      | .error _ => Holding env part file contents published w)
      (Triple.attempt (publishNoReplace_holding hleaves hpart p.rename destination)) ?_
    intro result
    cases result with
    | ok u => exact Triple.pure fun w hw => hw
    | error e =>
      refine Triple.ite (fun _ => ?_) (fun _ => Triple.throw fun w hw => hw.published)
      refine Triple.bind ?_
        fun destination => ih destination
      exact (FileTransfers.freePath_spec hstable p ft hname fun _ _ _ h => h.makeFolder _)
        |>.consequence (fun _ h => h) (fun _ _ h => h.2) (fun _ _ h => h.published)

theorem place_holding (hleaves : env.LeavesFiles folder) (p : Platform) (ft : FileTransfers)
    {r : Receiving} (hpart : r.part = staging env folder k)
    (hinside : folder.Inside r.finalPath) (synced : Except Fault Unit) :
    Triple (Holding env r.part r.file contents published) (ft.place p r synced)
      (fun path w => p.blake3 contents = r.expected ∧
        publications w.effects = published ++ [(path, contents)])
      (fun _ w => publications w.effects = published) := by
  have hstable : Stable (Holding env r.part r.file contents published) :=
    stable_holding hleaves hpart
  have hread : Triple (Holding env r.part r.file contents published) (readAll r.part)
      (fun bytes w => bytes = contents ∧ Holding env r.part r.file contents published w)
      (fun _ => Holding env r.part r.file contents published) := by
    refine FileTransfers.triple_call hstable fun w h => ?_
    split
    · exact ⟨fun a ha => (by cases ha), fun e _ => h⟩
    · exact ⟨fun a ha => (by cases ha), fun e _ => h⟩
    · rename_i inode hentry
      refine ⟨fun a ha => ⟨?_, h⟩, fun e he => (by cases he)⟩
      cases ha
      have : inode = r.file := by simpa using hentry.symm.trans h.entry
      rw [this]
      exact h.contents
  have hkeep : ∀ (e : Fault) w, Holding env r.part r.file contents published w →
      publications w.effects = published := fun _ _ h => h.published
  refine Triple.bind
    (Triple.ofExcept (fun _ _ _ h => h) (fun _ _ _ h => h.published)) fun _ => ?_
  refine Triple.bind (Q := fun _ w => p.blake3 contents = r.expected ∧
    Holding env r.part r.file contents published w) ?_ fun _ => ?_
  · refine Triple.bind (hread.consequence (fun _ h => h) (fun _ _ h => h) hkeep) fun bytes => ?_
    refine Triple.of_pure fun hbytes => ?_
    subst hbytes
    refine Triple.ite (fun _ => Triple.throw fun _ h => h.published) (fun hhash => Triple.pure fun w h => ?_)
    exact ⟨by simpa using hhash, h⟩
  refine Triple.of_pure fun hhash => ?_
  refine Triple.bind (Q := fun _ => Holding env r.part r.file contents published) ?_ fun _ => ?_
  · unfold FileTransfers.restoreModified
    split
    · intro w h
      unfold setModified
      split
      · exact ⟨fun _ _ => h, fun e he => by cases he⟩
      · exact ⟨fun _ _ => hstable w h, fun e he => by cases he⟩
    · exact Triple.pure fun w h => h
  · obtain ⟨name, hname, hfinal⟩ := hinside
    rw [hfinal, PathBuf.fileName_child]
    exact (publish_holding hleaves hpart p ft hname 1000 _).consequence (fun _ h => h)
      (fun _ _ h => ⟨hhash, h⟩) (fun _ _ h => h)

end Holding

theorem publications_removeFile (part : PathBuf) (w : World) :
    publications (removeFile part w).2.effects = publications w.effects := by
  unfold removeFile call
  split
  · rfl
  · dsimp only
    split
    · rfl
    · rfl
    · exact publications_did_of_not _ (by simp)

/-- **A settled receive publishes verified contents, a failed one nothing.** -/
theorem settle_publications {env : Env} {folder : PathBuf} {k : ℕ} {w : World}
    (hleaves : env.LeavesFiles folder) (p : Platform) (ft : FileTransfers) {r : Receiving}
    (henv : w.env = env) (hpart : r.part = staging env folder k)
    (hentry : w.entry r.part = some (.file r.file)) (hinside : folder.Inside r.finalPath) :
    (∀ path, (ft.settle p r w).1 = .ok path → ∃ contents, p.blake3 contents = r.expected ∧
      publications (ft.settle p r w).2.effects = publications w.effects ++ [(path, contents)]) ∧
    (∀ e, (ft.settle p r w).1 = .error e →
      publications (ft.settle p r w).2.effects = publications w.effects) := by
  have hstart : Holding env r.part r.file (w.fs.contents r.file) (publications w.effects) w :=
    ⟨henv, hentry, rfl, rfl⟩
  have hsync : Holding env r.part r.file (w.fs.contents r.file) (publications w.effects)
      (syncAll r.file w).2 := by
    have := stable_holding hleaves hpart w hstart
    unfold syncAll call
    split <;> exact this
  obtain ⟨hok, herr⟩ := place_holding hleaves p ft hpart hinside (syncAll r.file w).1 _ hsync
  refine ⟨fun path hp => ?_, fun e he => ?_⟩
  · obtain ⟨hhash, hpub⟩ := hok path hp
    exact ⟨_, hhash, (publications_removeFile _ _).trans hpub⟩
  · exact (publications_removeFile _ _).trans (herr e he)

end NebulaDesk
