/-
Paths under POSIX and Windows rules, as `std::path` reads them, and the names a
download may get (`nebula-agent/src/files.rs`).

`Os.join` replaces the folder when the name is absolute or carries a drive or
share prefix, and may climb with `..`; a `Plain` name does neither
(`Plain.join`).  Numbered alternatives of a plain name are plain
(`plain_numbered`), so every name `free_path` can try lies directly in the
folder.
-/
import NebulaDesk.Proto.Transfer

namespace NebulaDesk

/-- Whose path rules apply. -/
inductive Os
  | posix | windows
deriving DecidableEq, Repr

inductive Component
  | curDir | parentDir | normal (name : Text)
deriving DecidableEq

/-- A path as its components: the drive or share prefix of Windows, whether it
starts at the root, and the rest. -/
structure PathBuf where
  drive : Option Text
  rooted : Bool
  parts : List Component
deriving DecidableEq

namespace Os

def isSeparator : Os → Char → Bool
  | .posix, c => c = '/'
  | .windows, c => c = '/' || c = '\\'

/-- How many characters of a path are its prefix: a drive letter, or the two
segments after a double separator. -/
def prefixLen : Os → Text → ℕ
  | .posix, _ => 0
  | .windows, c :: ':' :: _ => if c.isAlpha then 2 else 0
  | .windows, a :: b :: rest =>
    if windows.isSeparator a && windows.isSeparator b then
      let server := rest.takeWhile (!windows.isSeparator ·)
      let share := (rest.drop (server.length + 1)).takeWhile (!windows.isSeparator ·)
      2 + server.length + 1 + share.length
    else 0
  | .windows, _ => 0

/-- A segment between separators; empty ones and `.` vanish, save a leading `.`
of a relative path. -/
def component (first : Bool) (segment : Text) : Option Component :=
  if segment = [] then none
  else if segment = ['.'] then if first then some .curDir else none
  else if segment = ['.', '.'] then some .parentDir
  else some (.normal segment)

/-- The components of a path. -/
def parse (os : Os) (path : Text) : PathBuf :=
  let n := os.prefixLen path
  let rest := path.drop n
  let rooted := rest.head?.any os.isSeparator
  let segments := rest.splitOnP os.isSeparator
  { drive := if n = 0 then none else some (path.take n)
    rooted := rooted
    parts := match segments with
      | [] => []
      | s :: ss => (component (!rooted) s).toList ++ ss.filterMap (component false) }

/-- `Path::join`: an absolute name, or one with a prefix, replaces the folder. -/
def join (os : Os) (folder : PathBuf) (name : Text) : PathBuf :=
  let path := os.parse name
  if path.drive.isSome then path
  else if path.rooted then { path with drive := folder.drive }
  else { folder with parts := folder.parts ++ path.parts }

end Os

namespace PathBuf

/-- The last component, if it is an ordinary one. -/
def fileName (path : PathBuf) : Option Text :=
  match path.parts.getLast? with
  | some (.normal name) => some name
  | _ => none

def withFileName (os : Os) (path : PathBuf) (name : Text) : PathBuf :=
  os.join (if path.fileName.isSome then { path with parts := path.parts.dropLast } else path) name

/-- An entry of the folder. -/
def child (folder : PathBuf) (name : Text) : PathBuf :=
  { folder with parts := folder.parts ++ [.normal name] }

/-- Whether a path is an entry directly inside the folder. -/
def Inside (folder path : PathBuf) : Prop := ∃ name, Plain name ∧ path = folder.child name

@[simp] theorem fileName_child (folder : PathBuf) (name : Text) :
    (folder.child name).fileName = some name := by
  simp [fileName, child]

theorem child_inj {folder : PathBuf} {m n : Text} (h : folder.child m = folder.child n) :
    m = n := by
  have := congrArg fileName h
  simpa using this

end PathBuf

variable {n : Text}

theorem Plain.no_separator (h : Plain n) (os : Os) : ∀ c ∈ n, os.isSeparator c = false := by
  intro c hc
  have hslash : c ≠ '/' := fun heq => h.noSlash (heq ▸ hc)
  have hback : c ≠ '\\' := fun heq => h.noBackslash (heq ▸ hc)
  cases os <;> simp [Os.isSeparator, hslash, hback]

theorem Plain.prefixLen (h : Plain n) (os : Os) : os.prefixLen n = 0 := by
  have hsep := h.no_separator .windows
  unfold Os.prefixLen
  split
  · rfl
  · rename_i c rest
    rw [if_neg (h.noDrive c rest rfl)]
  · rename_i a b rest _
    rw [hsep a (by simp)]
    rfl
  · rfl

/-- **A plain name is one ordinary component**, whichever rules apply. -/
theorem Plain.parse (h : Plain n) (os : Os) :
    os.parse n = ⟨none, false, [.normal n]⟩ := by
  have hsep := h.no_separator os
  have hroot : n.head?.any os.isSeparator = false := by
    cases n with
    | nil => rfl
    | cons c cs => exact hsep c (by simp)
  have hcomp : ∀ first, Os.component first n = some (.normal n) := by
    intro first
    rw [Os.component, if_neg h.nonempty, if_neg h.notDots.1, if_neg h.notDots.2]
  simp [Os.parse, h.prefixLen os, List.splitOnP_eq_singleton hsep, hroot, hcomp]

theorem Plain.join (h : Plain n) (os : Os) (folder : PathBuf) :
    os.join folder n = folder.child n := by
  simp [Os.join, h.parse os, PathBuf.child]

theorem withFileName_child (os : Os) (folder : PathBuf) (m : Text) (h : Plain n) :
    (folder.child m).withFileName os n = folder.child n := by
  simp [PathBuf.withFileName, PathBuf.child, PathBuf.fileName, Plain.join h]

/-! ### Numbered alternatives -/

/-- Split at the last occurrence of a character. -/
def rsplitOnce (c : Char) (t : Text) : Option (Text × Text) :=
  if t.contains c then
    some ((t.reverse.dropWhile (· ≠ c)).tail.reverse, (t.reverse.takeWhile (· ≠ c)).reverse)
  else none

def stemExtension (name : Text) : Text × Text :=
  match rsplitOnce '.' name with
  | some (stem, extension) => if stem ≠ [] then (stem, '.' :: extension) else (name, [])
  | none => (name, [])

/-- The `n`-th alternative of a taken name. -/
def numbered (name : Text) (n : ℕ) : Text :=
  (stemExtension name).1 ++ [' ', '('] ++ Nat.toDigits 10 n ++ [')'] ++ (stemExtension name).2

theorem mem_of_rsplitOnce {c d : Char} {t a b : Text} (h : rsplitOnce c t = some (a, b))
    (hd : d ∈ a ∨ d ∈ b) : d ∈ t := by
  unfold rsplitOnce at h
  split at h
  · cases h
    rcases hd with hd | hd
    · have := List.dropWhile_subset _ (List.mem_of_mem_tail (List.mem_reverse.mp hd))
      exact List.mem_reverse.mp this
    · have := List.takeWhile_subset _ (List.mem_reverse.mp hd)
      exact List.mem_reverse.mp this
  · cases h

theorem isPrefix_of_rsplitOnce {c : Char} {t a b : Text} (h : rsplitOnce c t = some (a, b)) :
    a <+: t := by
  unfold rsplitOnce at h
  split at h
  · cases h
    have hsuffix : (t.reverse.dropWhile (· ≠ c)).tail <:+ t.reverse :=
      (List.tail_suffix _).trans (List.dropWhile_suffix _)
    simpa using List.reverse_prefix.mpr hsuffix
  · cases h

theorem stemExtension_spec {name : Text} (h : name ≠ []) :
    (stemExtension name).1 ≠ [] ∧ (stemExtension name).1 <+: name ∧
      ∀ d ∈ (stemExtension name).2, d = '.' ∨ d ∈ name := by
  unfold stemExtension
  split
  · rename_i stem extension hsplit
    split
    · rename_i hstem
      refine ⟨hstem, isPrefix_of_rsplitOnce hsplit, fun d hd => ?_⟩
      rcases List.mem_cons.mp hd with rfl | hd
      · exact Or.inl rfl
      · exact Or.inr (mem_of_rsplitOnce hsplit (Or.inr hd))
    · exact ⟨h, List.prefix_rfl, by simp⟩
  · exact ⟨h, List.prefix_rfl, by simp⟩

/-- **Numbered alternatives of a plain name are plain.** -/
theorem plain_numbered {name : Text} (h : Plain name) (n : ℕ) : Plain (numbered name n) := by
  obtain ⟨hstem, hlead, hext⟩ := stemExtension_spec h.nonempty
  generalize hs : stemExtension name = split at hstem hlead hext
  obtain ⟨stem, ext⟩ := split
  simp only at hstem hlead hext
  have hnum : numbered name n = stem ++ [' ', '('] ++ Nat.toDigits 10 n ++ [')'] ++ ext := by
    rw [numbered, hs]
  -- A character of the alternative that is not of the name is one of these.
  have hmem : ∀ d, d ∈ numbered name n → d ∉ name →
      d = ' ' ∨ d = '(' ∨ d = ')' ∨ d = '.' ∨ d.isDigit := by
    intro d hd hname
    rw [hnum] at hd
    simp only [List.mem_append, List.mem_cons, List.not_mem_nil, or_false] at hd
    rcases hd with (((hd | hd) | hd) | hd) | hd
    · exact absurd (hlead.subset hd) hname
    · tauto
    · exact Or.inr (Or.inr (Or.inr (Or.inr
        (Nat.isDigit_of_mem_toDigits (by decide) (by decide) hd))))
    · tauto
    · rcases hext d hd with rfl | hd
      · tauto
      · exact absurd hd hname
  have hparen : '(' ∈ numbered name n := by
    rw [hnum]
    simp
  have hnone : ∀ d, d ∉ name →
      ¬ (d = ' ' ∨ d = '(' ∨ d = ')' ∨ d = '.' ∨ d.isDigit = true) → d ∉ numbered name n :=
    fun d hname hd hc => hd (hmem d hc hname)
  refine ⟨?_, ⟨?_, ?_⟩, hnone _ h.noSlash (by decide), hnone _ h.noBackslash (by decide),
    hnone _ h.noNul (by decide), ?_⟩
  · exact List.ne_nil_of_mem hparen
  · intro heq
    rw [heq] at hparen
    simp at hparen
  · intro heq
    rw [heq] at hparen
    simp at hparen
  · -- The first two characters are the stem's, or the stem is one letter and a blank follows.
    intro c rest heq hc
    rw [hnum] at heq
    match stem, hstem with
    | [a], _ => simp at heq
    | a :: b :: stem', _ =>
      simp only [List.cons_append, List.cons.injEq] at heq
      obtain ⟨rfl, rfl, -⟩ := heq
      obtain ⟨t, ht⟩ := hlead
      exact h.noDrive _ (stem' ++ t) (by rw [← ht]; rfl) hc

end NebulaDesk
