/-
Byte strings cut into units by start codes.

A start code is `0 0 1`, or `0 0 0 1`, and zeros may follow a unit.  `pieces` cuts a byte
string at every `0 0 1`, and `parse` takes the zeros off the pieces:

* `parse_join` — units joined by start codes are read back;
* `Marks.parse_eq` — what a scanner that notes offsets has to check to find the same units.
-/
import Mathlib

namespace StartCodes

/-- What stands before the first `0 0 1`, and what stands after each. -/
def pieces : List UInt8 → List UInt8 × List (List UInt8)
  | a :: b :: c :: rest =>
    if a = 0 ∧ b = 0 ∧ c = 1 then ([], (pieces rest).1 :: (pieces rest).2)
    else (pieces (b :: c :: rest)).map (a :: ·) id
  | short => (short, [])

/-- Without the zeros at the end. -/
def trim (bytes : List UInt8) : List UInt8 := bytes.rdropWhile (· == 0)

/-- The units of a byte string, of which only zeros may stand before the first. -/
def parse (bytes : List UInt8) : Option (List (List UInt8)) :=
  if (pieces bytes).2 ≠ [] ∧ (∀ b ∈ (pieces bytes).1, b = 0) ∧
      ∀ piece ∈ (pieces bytes).2, trim piece ≠ [] then
    some ((pieces bytes).2.map trim)
  else none

/-! ### Cutting -/

variable {bytes rest : List UInt8}

theorem pieces_code (rest : List UInt8) :
    pieces (0 :: 0 :: 1 :: rest) = ([], (pieces rest).1 :: (pieces rest).2) := by
  rw [pieces, if_pos ⟨rfl, rfl, rfl⟩]

theorem pieces_cons {a : UInt8} (h : ¬ [0, 0, 1] <+: a :: rest) :
    pieces (a :: rest) = (a :: (pieces rest).1, (pieces rest).2) := by
  match rest with
  | [] => rfl
  | [b] => rfl
  | b :: c :: rest =>
    have hne : ¬ (a = 0 ∧ b = 0 ∧ c = 1) := by
      rintro ⟨rfl, rfl, rfl⟩
      exact h ⟨rest, rfl⟩
    rw [pieces, if_neg hne]
    rfl

theorem pieces_zeros (n : ℕ) (rest : List UInt8) :
    pieces (List.replicate n 0 ++ 0 :: 0 :: 1 :: rest) =
      (List.replicate n 0, (pieces rest).1 :: (pieces rest).2) := by
  induction n with
  | zero => exact pieces_code rest
  | succ n ih =>
    have hcode :
        ¬ ([0, 0, 1] : List UInt8) <+: 0 :: (List.replicate n 0 ++ 0 :: 0 :: 1 :: rest) := by
      -- The third byte is a zero, one of those in front or of the code itself.
      rintro ⟨tail, htail⟩
      match n with
      | 0 => exact absurd (List.cons.inj (List.cons.inj (List.cons.inj htail).2).2).1 (by decide)
      | 1 => exact absurd (List.cons.inj (List.cons.inj (List.cons.inj htail).2).2).1 (by decide)
      | n + 2 =>
        exact absurd (List.cons.inj (List.cons.inj (List.cons.inj htail).2).2).1 (by decide)
    rw [List.replicate_succ, List.cons_append, pieces_cons hcode, ih]

theorem pieces_replicate (n : ℕ) : pieces (List.replicate n 0) = (List.replicate n 0, []) := by
  induction n with
  | zero => rfl
  | succ n ih =>
    have hcode : ¬ ([0, 0, 1] : List UInt8) <+: 0 :: List.replicate n 0 := by
      intro h
      have hmem : (1 : UInt8) ∈ List.replicate (n + 1) 0 := h.subset (by decide)
      exact absurd (List.eq_of_mem_replicate hmem) (by decide)
    rw [List.replicate_succ, pieces_cons hcode, ih]

/-! ### Units -/

/-- A unit can be told from the codes and zeros around it. -/
structure Clean (unit : List UInt8) : Prop where
  ne_nil : unit ≠ []
  getLast_ne : ∀ h : unit ≠ [], unit.getLast h ≠ 0
  no_zeros : ¬ [0, 0, 0] <:+: unit
  no_code : ¬ [0, 0, 1] <:+: unit

instance : DecidablePred Clean := fun unit =>
  decidable_of_iff (unit ≠ [] ∧ unit.getLast? ≠ some 0 ∧ ¬ [0, 0, 0] <:+: unit ∧
      ¬ [0, 0, 1] <:+: unit)
    ⟨fun ⟨hne, hlast, hzeros, hcode⟩ =>
      ⟨hne, fun h hzero => hlast (by rw [List.getLast?_eq_some_getLast h, hzero]), hzeros, hcode⟩,
    fun ⟨hne, hlast, hzeros, hcode⟩ =>
      ⟨hne, fun h => hlast hne (Option.some.inj ((List.getLast?_eq_some_getLast hne).symm.trans h)),
        hzeros, hcode⟩⟩

theorem trim_append_zeros (bytes : List UInt8) (n : ℕ) :
    trim (bytes ++ List.replicate n 0) = trim bytes := by
  induction n with
  | zero => rw [List.replicate_zero, List.append_nil]
  | succ n ih =>
    rw [List.replicate_succ', ← List.append_assoc, trim,
      List.rdropWhile_concat_pos _ _ _ (by decide)]
    exact ih

theorem trim_eq_self (h : ∀ hne : bytes ≠ [], bytes.getLast hne ≠ 0) : trim bytes = bytes :=
  List.rdropWhile_eq_self_iff.mpr fun hne => by simpa using h hne

theorem pieces_append {unit : List UInt8} (hlast : ∀ h : unit ≠ [], unit.getLast h ≠ 0)
    (hcode : ¬ [0, 0, 1] <:+: unit) (rest : List UInt8) :
    pieces (unit ++ rest) = (unit ++ (pieces rest).1, (pieces rest).2) := by
  induction unit with
  | nil => rfl
  | cons a unit ih =>
    have htail : ∀ h : unit ≠ [], unit.getLast h ≠ 0 := by
      intro h
      rw [← List.getLast_cons h]
      exact hlast _
    have hpieces := ih htail fun h => hcode (h.trans (List.suffix_cons a unit).isInfix)
    have hstart : ¬ [0, 0, 1] <+: a :: (unit ++ rest) := by
      rintro ⟨tail, hfront⟩
      match unit with
      | [] =>
        exact hlast (List.cons_ne_nil _ _) (List.cons.inj hfront).1.symm
      | [b] =>
        refine htail (List.cons_ne_nil _ _) ?_
        exact (List.cons.inj (List.cons.inj hfront).2).1.symm
      | b :: c :: unit =>
        obtain ⟨ha, hfront⟩ := List.cons.inj hfront
        obtain ⟨hb, hfront⟩ := List.cons.inj hfront
        obtain ⟨hc, -⟩ := List.cons.inj hfront
        exact hcode ⟨[], unit, by rw [← ha, ← hb, ← hc]; rfl⟩
    rw [List.cons_append, pieces_cons hstart, hpieces]
    rfl

/-! ### Joining -/

/-- A unit between its start code and the zeros after it. -/
structure Item where
  long : Bool
  unit : List UInt8
  zeros : ℕ

/-- The three bytes of a start code, or the four of a long one. -/
def code (long : Bool) : List UInt8 := if long then [0, 0, 0, 1] else [0, 0, 1]

def Item.spell (i : Item) : List UInt8 := code i.long ++ i.unit ++ List.replicate i.zeros 0

def join (items : List Item) : List UInt8 := items.flatMap Item.spell

theorem pieces_zeros_code (n : ℕ) (long : Bool) (rest : List UInt8) :
    ∃ m, pieces (List.replicate n 0 ++ (code long ++ rest)) =
      (List.replicate m 0, (pieces rest).1 :: (pieces rest).2) := by
  cases long with
  | false => exact ⟨n, pieces_zeros n rest⟩
  | true =>
    refine ⟨n + 1, ?_⟩
    rw [← pieces_zeros (n + 1) rest, List.replicate_succ', List.append_assoc]
    rfl

theorem pieces_zeros_join {items : List Item} (h : ∀ i ∈ items, Clean i.unit) (n : ℕ) :
    ∃ m, (pieces (List.replicate n 0 ++ join items)).1 = List.replicate m 0 ∧
      (pieces (List.replicate n 0 ++ join items)).2.map trim = items.map Item.unit := by
  induction items generalizing n with
  | nil =>
    refine ⟨n, ?_⟩
    rw [join, List.flatMap_nil, List.append_nil, pieces_replicate]
    exact ⟨rfl, rfl⟩
  | cons i items ih =>
    have hi := h i List.mem_cons_self
    obtain ⟨k, hzeros, hunits⟩ := ih (fun j hj => h j (List.mem_cons_of_mem i hj)) i.zeros
    obtain ⟨m, hpieces⟩ := pieces_zeros_code n i.long
      (i.unit ++ (List.replicate i.zeros 0 ++ join items))
    have hjoin : join (i :: items) =
        code i.long ++ (i.unit ++ (List.replicate i.zeros 0 ++ join items)) := by
      rw [join, List.flatMap_cons, Item.spell, List.append_assoc, List.append_assoc]
      rfl
    rw [hjoin, hpieces, pieces_append hi.getLast_ne hi.no_code]
    refine ⟨m, rfl, ?_⟩
    rw [List.map_cons, List.map_cons, hzeros, hunits, trim_append_zeros,
      trim_eq_self hi.getLast_ne]

/-- **Units joined by start codes are read back.** -/
theorem parse_join {items : List Item} (hne : items ≠ []) (h : ∀ i ∈ items, Clean i.unit) :
    parse (join items) = some (items.map Item.unit) := by
  obtain ⟨m, hzeros, hunits⟩ := pieces_zeros_join h 0
  rw [List.replicate_zero, List.nil_append] at hzeros hunits
  rw [parse, if_pos, hunits]
  refine ⟨fun hnil => hne ?_, fun b hb => ?_, fun piece hpiece htrim => ?_⟩
  · rw [hnil, List.map_nil] at hunits
    exact List.map_eq_nil_iff.mp hunits.symm
  · rw [hzeros] at hb
    exact List.eq_of_mem_replicate hb
  · have hmem : trim piece ∈ items.map Item.unit := hunits ▸ List.mem_map_of_mem hpiece
    obtain ⟨i, hi, hunit⟩ := List.mem_map.mp hmem
    exact (h i hi).ne_nil (hunit.trans htrim)

/-! ### Slices -/

/-- The bytes from one offset to another. -/
def slice (bytes : List UInt8) (start stop : ℕ) : List UInt8 :=
  (bytes.drop start).take (stop - start)

/-- An end moved down over zeros, as far as a start. -/
def trimEnd (bytes : List UInt8) (start : ℕ) : ℕ → ℕ
  | 0 => 0
  | stop + 1 =>
    if start < stop + 1 ∧ bytes[stop]? = some 0 then trimEnd bytes start stop else stop + 1

theorem slice_self (bytes : List UInt8) (start : ℕ) : slice bytes start start = [] := by
  rw [slice, Nat.sub_self, List.take_zero]

variable {bytes : List UInt8} {start stop : ℕ}

theorem slice_succ {b : UInt8} (hle : start ≤ stop)
    (h : bytes[stop]? = some b) : slice bytes start (stop + 1) = slice bytes start stop ++ [b] := by
  have hsub : stop + 1 - start = stop - start + 1 := by omega
  have hadd : start + (stop - start) = stop := by omega
  rw [slice, hsub, List.take_add_one, List.getElem?_drop, hadd, h]
  rfl

theorem slice_trimEnd (hle : start ≤ stop) (hstop : stop ≤ bytes.length) :
    slice bytes start (trimEnd bytes start stop) = trim (slice bytes start stop) := by
  induction stop with
  | zero =>
    rw [trimEnd, Nat.le_zero.mp hle, slice_self]
    rfl
  | succ stop ih =>
    rcases Nat.eq_or_lt_of_le hle with rfl | hlt
    · rw [trimEnd, if_neg (by omega), slice_self]
      rfl
    have hget : bytes[stop]? = some bytes[stop] := List.getElem?_eq_getElem hstop
    rw [slice_succ (by omega) hget]
    by_cases hzero : bytes[stop] = 0
    · rw [trimEnd, if_pos ⟨hlt, by rw [hget, hzero]⟩, ih (by omega) (by omega), hzero]
      exact (trim_append_zeros _ 1).symm
    · have hkeep : ¬ (start < stop + 1 ∧ bytes[stop]? = some 0) := by
        rintro ⟨-, h⟩
        exact hzero (Option.some.inj (hget.symm.trans h))
      rw [trimEnd, if_neg hkeep, slice_succ (by omega) hget, trim_eq_self]
      intro hne
      rw [List.getLast_append_singleton]
      exact hzero

theorem slice_eq_nil_iff (h : stop ≤ bytes.length) :
    slice bytes start stop = [] ↔ stop ≤ start := by
  rw [← List.length_eq_zero_iff, slice, List.length_take, List.length_drop]
  omega

theorem trimEnd_le (bytes : List UInt8) (start stop : ℕ) : trimEnd bytes start stop ≤ stop := by
  induction stop with
  | zero => exact Nat.le_refl 0
  | succ stop ih =>
    rw [trimEnd]
    split
    · exact Nat.le_succ_of_le ih
    · exact Nat.le_refl _

/-! ### Marks

A scanner notes where each start code begins and where the unit behind it does.  It may take
the zero of a long code for a part of the code or for what stands before it. -/

/-- The marks of `rest`, which begins at an offset. -/
inductive Marks : List UInt8 → ℕ → List (ℕ × ℕ) → Prop
  | nil (i : ℕ) : Marks [] i []
  | code {rest : List UInt8} {i : ℕ} {marks : List (ℕ × ℕ)} : Marks rest (i + 3) marks →
      Marks (0 :: 0 :: 1 :: rest) i ((i, i + 3) :: marks)
  | long {rest : List UInt8} {i : ℕ} {marks : List (ℕ × ℕ)} : Marks rest (i + 4) marks →
      Marks (0 :: 0 :: 0 :: 1 :: rest) i ((i, i + 4) :: marks)
  | skip {a : UInt8} {rest : List UInt8} {i : ℕ} {marks : List (ℕ × ℕ)} :
      ¬ [0, 0, 1] <+: a :: rest → Marks rest (i + 1) marks → Marks (a :: rest) i marks

/-- Where what stands before the marks ends. -/
def next (bytes : List UInt8) (marks : List (ℕ × ℕ)) : ℕ :=
  (marks.head?.map Prod.fst).getD bytes.length

/-- The units behind the marks. -/
def cut (bytes : List UInt8) : List (ℕ × ℕ) → List (List UInt8)
  | [] => []
  | (_, start) :: more =>
    slice bytes start (trimEnd bytes start (next bytes more)) :: cut bytes more

section Marks

variable {full : List UInt8} {i : ℕ} {marks : List (ℕ × ℕ)}

theorem pieces_long (rest : List UInt8) :
    pieces (0 :: 0 :: 0 :: 1 :: rest) = ([0], (pieces rest).1 :: (pieces rest).2) :=
  pieces_zeros 1 rest

theorem drop_of_cons {a : UInt8} (h : full.drop i = a :: rest) :
    full[i]? = some a ∧ full.drop (i + 1) = rest := by
  refine ⟨?_, ?_⟩
  · rw [← List.head?_drop, h, List.head?_cons]
  · rw [← List.drop_drop, h, List.drop_one, List.tail_cons]

theorem marks_of_length_lt (h : rest.length < 3) (i : ℕ) : Marks rest i [] := by
  induction rest generalizing i with
  | nil => exact .nil i
  | cons a rest ih =>
    rw [List.length_cons] at h
    refine .skip (fun hcode => ?_) (ih (by omega) _)
    have hlen := hcode.length_le
    simp only [List.length_cons, List.length_nil] at hlen
    omega

theorem Marks.next_bounds (h : Marks rest i marks) (hfull : full.drop i = rest)
    (hi : i ≤ full.length) : i ≤ next full marks ∧ next full marks ≤ full.length := by
  induction h with
  | nil i => exact ⟨hi, Nat.le_refl _⟩
  | code _ _ => exact ⟨Nat.le_refl _, hi⟩
  | long _ _ => exact ⟨Nat.le_refl _, hi⟩
  | skip _ _ ih =>
    obtain ⟨hget, hdrop⟩ := drop_of_cons hfull
    have hlt := (List.getElem?_eq_some_iff.mp hget).1
    have := ih hdrop hlt
    omega

theorem Marks.le_length (h : Marks rest i marks) (hfull : full.drop i = rest) :
    ∀ mark ∈ marks, mark.1 ≤ full.length := by
  induction h with
  | nil i => nofun
  | code _ ih | long _ ih =>
    have hi := (List.getElem?_eq_some_iff.mp (drop_of_cons hfull).1).1
    rintro mark (_ | ⟨_, hmark⟩)
    · exact hi.le
    · exact ih (by rw [← List.drop_drop, hfull]; rfl) mark hmark
  | skip _ _ ih => exact ih (drop_of_cons hfull).2

theorem next_le (h : ∀ mark ∈ marks, mark.1 ≤ full.length) : next full marks ≤ full.length := by
  match marks with
  | [] => exact Nat.le_refl _
  | mark :: _ => exact h mark List.mem_cons_self

theorem slice_trimEnd_eq_nil_iff {start : ℕ} (h : ∀ mark ∈ marks, mark.1 ≤ full.length) :
    slice full start (trimEnd full start (next full marks)) = [] ↔
      trimEnd full start (next full marks) ≤ start :=
  slice_eq_nil_iff ((trimEnd_le _ _ _).trans (next_le h))

/-- From a start to the next mark there is what `pieces` puts before the first code. -/
theorem Marks.trim_slice_next (h : Marks rest i marks) (hfull : full.drop i = rest)
    (hi : i ≤ full.length) {start : ℕ} (hstart : start ≤ i) :
    trim (slice full start (next full marks)) = trim (slice full start i ++ (pieces rest).1) := by
  induction h with
  | nil i =>
    have hall : full.length = i := by
      have := List.drop_eq_nil_iff.mp hfull
      omega
    show trim (slice full start full.length) = _
    rw [hall, pieces, List.append_nil]
    simp
  | code _ _ =>
    rw [pieces_code, List.append_nil]
    rfl
  | long _ _ =>
    rw [pieces_long]
    exact (trim_append_zeros _ 1).symm
  | skip hcode _ ih =>
    obtain ⟨hget, hdrop⟩ := drop_of_cons hfull
    have hlt := (List.getElem?_eq_some_iff.mp hget).1
    rw [ih hdrop hlt (by omega), pieces_cons hcode, slice_succ hstart hget, List.append_assoc]
    rfl

theorem Marks.cut_eq (h : Marks rest i marks) (hfull : full.drop i = rest) :
    cut full marks = (pieces rest).2.map trim := by
  induction h with
  | nil i => rfl
  | @code rest i marks hrest ih =>
    have hdrop : full.drop (i + 3) = rest := by
      rw [← List.drop_drop, hfull]
      rfl
    have hlen : i + 3 ≤ full.length := by
      have := congrArg List.length hfull
      simp only [List.length_drop, List.length_cons] at this
      omega
    have hbounds := hrest.next_bounds hdrop hlen
    rw [cut, ih hdrop, pieces_code, slice_trimEnd hbounds.1 hbounds.2,
      hrest.trim_slice_next hdrop hlen (Nat.le_refl _), slice_self]
    rfl
  | @long rest i marks hrest ih =>
    have hdrop : full.drop (i + 4) = rest := by
      rw [← List.drop_drop, hfull]
      rfl
    have hlen : i + 4 ≤ full.length := by
      have := congrArg List.length hfull
      simp only [List.length_drop, List.length_cons] at this
      omega
    have hbounds := hrest.next_bounds hdrop hlen
    rw [cut, ih hdrop, pieces_long, slice_trimEnd hbounds.1 hbounds.2,
      hrest.trim_slice_next hdrop hlen (Nat.le_refl _), slice_self]
    rfl
  | skip hcode _ ih =>
    rw [ih (drop_of_cons hfull).2, pieces_cons hcode]

theorem Marks.prefix_eq {first start : ℕ} {more : List (ℕ × ℕ)}
    (h : Marks rest i ((first, start) :: more)) :
    i ≤ first ∧ ∃ n, (pieces rest).1 = rest.take (first - i) ++ List.replicate n 0 := by
  generalize hmarks : (first, start) :: more = marks at h
  induction h with
  | nil i => cases hmarks
  | code _ _ =>
    cases hmarks
    refine ⟨Nat.le_refl _, 0, ?_⟩
    rw [pieces_code, Nat.sub_self]
    rfl
  | long _ _ =>
    cases hmarks
    refine ⟨Nat.le_refl _, 1, ?_⟩
    rw [pieces_long, Nat.sub_self]
    rfl
  | @skip a rest i marks hcode _ ih =>
    obtain ⟨hle, n, hn⟩ := ih hmarks
    have hsub : first - i = first - (i + 1) + 1 := by omega
    refine ⟨by omega, n, ?_⟩
    rw [pieces_cons hcode, hn, hsub]
    rfl

theorem Marks.parse_eq (h : Marks bytes 0 marks) :
    parse bytes =
      if marks ≠ [] ∧ (∀ b ∈ bytes.take (next bytes marks), b = 0) ∧ [] ∉ cut bytes marks then
        some (cut bytes marks)
      else none := by
  have hcut : cut bytes marks = (pieces bytes).2.map trim := h.cut_eq rfl
  have hnil : (pieces bytes).2 ≠ [] ↔ marks ≠ [] := by
    match marks with
    | [] =>
      have : (pieces bytes).2 = [] := List.map_eq_nil_iff.mp hcut.symm
      simp [this]
    | (_, _) :: more =>
      rw [cut] at hcut
      refine iff_of_true (fun hpieces => ?_) (List.cons_ne_nil _ _)
      rw [hpieces] at hcut
      cases hcut
  have hempty : (∀ piece ∈ (pieces bytes).2, trim piece ≠ []) ↔ [] ∉ cut bytes marks := by
    rw [hcut, List.mem_map]
    exact ⟨fun h ⟨piece, hpiece, htrim⟩ => h piece hpiece htrim,
      fun h piece hpiece htrim => h ⟨piece, hpiece, htrim⟩⟩
  rw [parse, ← hcut]
  by_cases hmarks : marks = []
  · have hpieces : ¬ (pieces bytes).2 ≠ [] := fun hne => hnil.mp hne hmarks
    rw [if_neg fun h => hpieces h.1, if_neg fun h => h.1 hmarks]
  obtain ⟨⟨first, start⟩, more, rfl⟩ := List.exists_cons_of_ne_nil hmarks
  obtain ⟨-, n, hfront⟩ := h.prefix_eq
  have hzeros : (∀ b ∈ (pieces bytes).1, b = 0) ↔ ∀ b ∈ bytes.take first, b = 0 := by
    rw [hfront, Nat.sub_zero]
    simp only [List.mem_append, or_imp, forall_and, List.mem_replicate]
    exact and_iff_left fun b hb => hb.2
  refine if_congr ?_ rfl rfl
  rw [hnil, hzeros, hempty]
  rfl

end Marks

end StartCodes
