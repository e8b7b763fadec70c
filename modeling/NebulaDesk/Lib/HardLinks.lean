/-
A directory whose files may have several names.

An entry is a link to a numbered file, and a file lives on under every name that links to it.
Each operation is atomic; what it does to the other names, to the number of links and to the
contents is said in one lemma each (`lookup_…`, `nlink_…`, `file_…`).
-/
import Mathlib

/-- A file, apart from its names. -/
structure Inode where
  content : List UInt8
  /-- Neither a directory nor a symbolic link. -/
  regular : Bool
  /-- The owner's, and nobody else's to open. -/
  restricted : Bool
deriving DecidableEq

structure LinkDirectory (Name : Type) where
  links : List (Name × ℕ)
  files : List Inode
  /-- A name is there once. -/
  nodup : (links.map Prod.fst).Nodup
  /-- A link leads to a file. -/
  linked : ∀ l ∈ links, l.2 < files.length

namespace LinkDirectory

variable {Name : Type} [DecidableEq Name]

/-- The file that a name links to. -/
def lookup (d : LinkDirectory Name) (name : Name) : Option ℕ :=
  (d.links.find? (·.1 = name)).map Prod.snd

/-- How many names a file has. -/
def nlink (d : LinkDirectory Name) (i : ℕ) : ℕ := d.links.countP (·.2 = i)

def file (d : LinkDirectory Name) (i : ℕ) : Option Inode := d.files[i]?

variable {d : LinkDirectory Name} {name : Name} {i : ℕ}

theorem mem_of_lookup (h : d.lookup name = some i) : (name, i) ∈ d.links := by
  obtain ⟨l, hfind, rfl⟩ := Option.map_eq_some_iff.mp h
  have hname : l.1 = name := by simpa using List.find?_some hfind
  have hmem := List.mem_of_find?_eq_some hfind
  rwa [← hname]

theorem lookup_of_mem (h : (name, i) ∈ d.links) : d.lookup name = some i := by
  cases hfind : d.links.find? (·.1 = name) with
  | none => exact absurd (decide_eq_true rfl) (List.find?_eq_none.mp hfind (name, i) h)
  | some l =>
    have hname : l.1 = name := by simpa using List.find?_some hfind
    have hmem := List.mem_of_find?_eq_some hfind
    -- a second link of that name would be another entry of it
    have heq : l = (name, i) := List.inj_on_of_nodup_map d.nodup hmem h hname
    rw [lookup, hfind, heq]
    rfl

theorem lookup_eq_some_iff : d.lookup name = some i ↔ (name, i) ∈ d.links :=
  ⟨mem_of_lookup, lookup_of_mem⟩

theorem notMem_of_lookup (h : d.lookup name = none) : name ∉ d.links.map Prod.fst := by
  intro hmem
  obtain ⟨⟨name', i⟩, hl, rfl⟩ := List.mem_map.mp hmem
  rw [lookup_of_mem hl] at h
  cases h

theorem lookup_lt (h : d.lookup name = some i) : i < d.files.length :=
  d.linked _ (mem_of_lookup h)

theorem exists_file (h : d.lookup name = some i) : ∃ inode, d.file i = some inode :=
  ⟨d.files.get ⟨i, lookup_lt h⟩, List.getElem?_eq_getElem (lookup_lt h)⟩

/-! ### The operations -/

/-- A new file under a name that is free. -/
def create (d : LinkDirectory Name) (name : Name) (inode : Inode) : Option (LinkDirectory Name) :=
  if h : d.lookup name = none then
    some
      { links := (name, d.files.length) :: d.links
        files := d.files ++ [inode]
        nodup := List.nodup_cons.mpr ⟨notMem_of_lookup h, d.nodup⟩
        linked := by
          intro l hl
          rw [List.length_append, List.length_singleton]
          rcases List.mem_cons.mp hl with rfl | hl
          · exact Nat.lt_succ_self _
          · exact Nat.lt_succ_of_lt (d.linked l hl) }
  else none

/-- Another name for the file of a name, if it is free. -/
def hardLink (d : LinkDirectory Name) (source target : Name) : Option (LinkDirectory Name) :=
  match hsource : d.lookup source with
  | none => none
  | some i =>
    if h : d.lookup target = none then
      some
        { d with
          links := (target, i) :: d.links
          nodup := List.nodup_cons.mpr ⟨notMem_of_lookup h, d.nodup⟩
          linked := List.forall_mem_cons.mpr ⟨lookup_lt hsource, d.linked⟩ }
    else none

/-- The name is free afterwards; the file stays where it has another. -/
def unlink (d : LinkDirectory Name) (name : Name) : LinkDirectory Name :=
  { d with
    links := d.links.filter (·.1 ≠ name)
    nodup := d.nodup.sublist (List.filter_sublist.map Prod.fst)
    linked := fun l hl => d.linked l (List.mem_of_mem_filter hl) }

/-- Other contents for an open file. -/
def write (d : LinkDirectory Name) (i : ℕ) (content : List UInt8) : LinkDirectory Name :=
  { d with
    files := d.files.modify i fun inode => { inode with content := content }
    linked := by
      rw [List.length_modify]
      exact d.linked }

variable {d d' : LinkDirectory Name} {name source target : Name} {inode : Inode} {i : ℕ}

/-! ### A new file -/

theorem create_eq_some (h : d.create name inode = some d') :
    d.lookup name = none ∧ d'.links = (name, d.files.length) :: d.links ∧
      d'.files = d.files ++ [inode] := by
  unfold create at h
  split at h
  · next hfree =>
    cases h
    exact ⟨hfree, rfl, rfl⟩
  · cases h

theorem lookup_create (h : d.create name inode = some d') (other : Name) :
    d'.lookup other = if other = name then some d.files.length else d.lookup other := by
  obtain ⟨-, hlinks, -⟩ := create_eq_some h
  unfold lookup
  rw [hlinks, List.find?_cons]
  by_cases hname : other = name
  · simp [hname]
  · have hne : ¬ name = other := fun heq => hname heq.symm
    simp [hname, hne]

theorem nlink_create (h : d.create name inode = some d') : d'.nlink d.files.length = 1 := by
  obtain ⟨-, hlinks, -⟩ := create_eq_some h
  have hzero : d.links.countP (·.2 = d.files.length) = 0 := by
    refine List.countP_eq_zero.mpr fun l hl => ?_
    have := d.linked l hl
    simp
    omega
  rw [nlink, hlinks, List.countP_cons, hzero]
  simp

theorem file_create (h : d.create name inode = some d') :
    d'.file d.files.length = some inode ∧ ∀ i < d.files.length, d'.file i = d.file i := by
  obtain ⟨-, -, hfiles⟩ := create_eq_some h
  unfold file
  rw [hfiles]
  exact ⟨by simp, fun i hi => List.getElem?_append_left hi⟩

theorem nlink_create_of_lt (h : d.create name inode = some d') (hi : i < d.files.length) :
    d'.nlink i = d.nlink i := by
  obtain ⟨-, hlinks, -⟩ := create_eq_some h
  have hne : d.files.length ≠ i := by omega
  rw [nlink, hlinks, List.countP_cons]
  simp [hne, nlink]

/-! ### A second name -/

theorem hardLink_eq_some (h : d.hardLink source target = some d') :
    ∃ i, d.lookup source = some i ∧ d.lookup target = none ∧ d'.links = (target, i) :: d.links ∧
      d'.files = d.files := by
  unfold hardLink at h
  split at h
  · cases h
  · next i hsource =>
    split at h
    · next hfree =>
      cases h
      exact ⟨i, hsource, hfree, rfl, rfl⟩
    · cases h

theorem lookup_hardLink (h : d.hardLink source target = some d') (other : Name) :
    d'.lookup other = if other = target then d.lookup source else d.lookup other := by
  obtain ⟨i, hsource, -, hlinks, -⟩ := hardLink_eq_some h
  rw [hsource]
  unfold lookup
  rw [hlinks, List.find?_cons]
  by_cases hname : other = target
  · simp [hname]
  · have hne : ¬ target = other := fun heq => hname heq.symm
    simp [hname, hne]

theorem nlink_hardLink (h : d.hardLink source target = some d') (hi : d.lookup source = some i) :
    d'.nlink i = d.nlink i + 1 := by
  obtain ⟨j, hsource, -, hlinks, -⟩ := hardLink_eq_some h
  obtain rfl : j = i := Option.some.inj (hsource.symm.trans hi)
  rw [nlink, hlinks, List.countP_cons]
  simp [nlink]

theorem file_hardLink (h : d.hardLink source target = some d') (i : ℕ) : d'.file i = d.file i := by
  obtain ⟨-, -, -, -, hfiles⟩ := hardLink_eq_some h
  rw [file, hfiles, file]

/-! ### A name less -/

theorem lookup_unlink (d : LinkDirectory Name) (name other : Name) :
    (d.unlink name).lookup other = if other = name then none else d.lookup other := by
  refine Option.ext fun i => ?_
  rw [lookup_eq_some_iff, unlink, List.mem_filter]
  by_cases hname : other = name
  · simp [hname]
  · simp [hname, lookup_eq_some_iff]

theorem nlink_unlink (hi : d.lookup name = some i) : (d.unlink name).nlink i + 1 = d.nlink i := by
  have hmem := mem_of_lookup hi
  have hothers : ∀ l ∈ d.links, l.1 = name → l = (name, i) := fun l hl hname =>
    List.inj_on_of_nodup_map d.nodup hl hmem hname
  have herase : d.links.filter (·.1 ≠ name) = d.links.erase (name, i) := by
    rw [(List.Nodup.of_map _ d.nodup).erase_eq_filter]
    refine List.filter_congr fun l hl => ?_
    by_cases hname : l.1 = name
    · simp [hothers l hl hname]
    · have hne : l ≠ (name, i) := fun heq => hname (by rw [heq])
      simp [hname, hne]
  have hcount : d.nlink i = (d.unlink name).nlink i + 1 := by
    unfold nlink unlink
    simp only
    rw [herase, (List.perm_cons_erase hmem).countP_eq, List.countP_cons]
    simp
  exact hcount.symm

/-! ### Other contents -/

omit [DecidableEq Name] in
theorem file_write (d : LinkDirectory Name) (i : ℕ) (content : List UInt8) (j : ℕ) :
    (d.write i content).file j =
      if j = i then (d.file i).map fun inode => { inode with content := content } else d.file j := by
  unfold file write
  simp only
  by_cases hj : j = i
  · simp [hj]
  · have hne : ¬ i = j := fun heq => hj heq.symm
    simp [hj, hne]

end LinkDirectory
