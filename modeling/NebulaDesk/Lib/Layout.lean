/-
Fixed layouts of little-endian fields.

A layout lists its fields in order: how many bytes each takes, which numbers a
reader takes there, and what a writer puts there for the number that was read (a
reserved field is read whatever it holds, and written as zero).

`Faithful` says what a writer and a reader owe each other over a layout:

* what was written is read back, with whatever follows left over;
* what was read is written back, up to the fields the writer does not keep;
* a reader refuses exactly what is too short or has a number it does not take;
* the bytes after the layout do not matter.

`Faithful.of_spellings` derives all four from how the reader treats the spelling
of a tuple of numbers (`spell`), and `bind_eq_ok`, `guard_eq_ok` take a reader apart.
-/
import NebulaDesk.Lib.Bytes

namespace Layout

open Bytes

section Except

variable {ε α β : Type}

theorem bind_eq_ok {x : Except ε α} {f : α → Except ε β} {b : β} :
    (x >>= f) = .ok b ↔ ∃ a, x = .ok a ∧ f a = .ok b := by
  cases x <;> simp [bind, Except.bind]

theorem guard_eq_ok {c : Prop} [Decidable c] {e : ε} {k : Except ε β} {b : β} :
    (if c then (throw e : Except ε α) >>= fun _ => k else k) = .ok b ↔ ¬ c ∧ k = .ok b := by
  by_cases hc : c <;> simp [hc, throw, throwThe, MonadExceptOf.throw, bind, Except.bind]

theorem not_exists_error {x : Except ε (α × β)} :
    (¬ ∃ e, x = .error e) ↔ ∃ a b, x = .ok (a, b) := by
  cases x with
  | error e => simp
  | ok p => simp [Prod.ext_iff]

end Except

/-- One field of a layout. -/
structure Field where
  width : ℕ
  accepts : ℕ → Bool
  canon : ℕ → ℕ

namespace Field

/-- A field written as it was read. -/
@[simp] def kept (width : ℕ) : Field := ⟨width, fun _ => true, id⟩

/-- A field written as it was read, with a check. -/
@[simp] def checked (width : ℕ) (accepts : ℕ → Bool) : Field := ⟨width, accepts, id⟩

/-- A field a reader skips and a writer zeroes. -/
@[simp] def reserved (width : ℕ) : Field := ⟨width, fun _ => true, fun _ => 0⟩

/-- A discriminant, one of the given ones. -/
@[simp] def among (width : ℕ) (codes : List ℕ) : Field := checked width codes.contains

end Field

/-- How many bytes the fields take. -/
def len : List Field → ℕ
  | [] => 0
  | f :: fs => f.width + len fs

/-- A number for each field. -/
abbrev Values : List Field → Type
  | [] => Unit
  | _ :: fs => ℕ × Values fs

/-- The bytes that spell the numbers. -/
def spell : (fs : List Field) → Values fs → List UInt8
  | [], _ => []
  | f :: fs, (v, vs) => toLeBytes f.width v ++ spell fs vs

/-- Every number fits its field and passes its check. -/
def Fits : (fs : List Field) → Values fs → Prop
  | [], _ => True
  | f :: fs, (v, vs) => v < 256 ^ f.width ∧ f.accepts v = true ∧ Fits fs vs

/-- What a writer makes of the numbers. -/
def canon : (fs : List Field) → Values fs → Values fs
  | [], _ => ()
  | f :: fs, (v, vs) => (f.canon v, canon fs vs)

/-- Whether the fields at the front of `b` pass their checks. -/
def accepted : List Field → List UInt8 → Bool
  | [], _ => true
  | f :: fs, b => f.accepts (fromLeBytes (b.take f.width)) && accepted fs (b.drop f.width)

/-- The fields at the front of `b`, as a writer puts them. -/
def canonical : List Field → List UInt8 → List UInt8
  | [], _ => []
  | f :: fs, b =>
    toLeBytes f.width (f.canon (fromLeBytes (b.take f.width))) ++ canonical fs (b.drop f.width)

attribute [simp] spell Fits canon

@[simp] theorem length_spell (fs : List Field) (vs : Values fs) :
    (spell fs vs).length = len fs := by
  induction fs with
  | nil => rfl
  | cons f fs ih => simp [spell, len, ih]

variable {fs : List Field}

theorem accepted_spell {vs : Values fs} (h : Fits fs vs) (r : List UInt8) :
    accepted fs (spell fs vs ++ r) = true := by
  induction fs with
  | nil => rfl
  | cons f fs ih =>
    obtain ⟨v, vs⟩ := vs
    obtain ⟨hlt, hacc, hrest⟩ := h
    rw [spell, accepted, List.append_assoc, List.take_left' (length_toLeBytes _ _),
      List.drop_left' (length_toLeBytes _ _), fromLeBytes_toLeBytes_of_lt hlt, hacc, ih hrest]
    rfl

theorem canonical_spell {vs : Values fs} (h : Fits fs vs) (r : List UInt8) :
    canonical fs (spell fs vs ++ r) = spell fs (canon fs vs) := by
  induction fs with
  | nil => rfl
  | cons f fs ih =>
    obtain ⟨v, vs⟩ := vs
    obtain ⟨hlt, -, hrest⟩ := h
    rw [spell, canonical, List.append_assoc, List.take_left' (length_toLeBytes _ _),
      List.drop_left' (length_toLeBytes _ _), fromLeBytes_toLeBytes_of_lt hlt, ih hrest]
    rfl

/-- **Enough bytes that pass the checks are a spelling.** -/
theorem exists_spell {b : List UInt8} (hlen : len fs ≤ b.length) (hacc : accepted fs b = true) :
    ∃ vs, Fits fs vs ∧ b = spell fs vs ++ b.drop (len fs) := by
  induction fs generalizing b with
  | nil => exact ⟨(), trivial, rfl⟩
  | cons f fs ih =>
    rw [len] at hlen
    simp only [accepted, Bool.and_eq_true] at hacc
    have htake : (b.take f.width).length = f.width := by
      rw [List.length_take]
      omega
    obtain ⟨vs, hfits, hb⟩ := ih (by rw [List.length_drop]; omega) hacc.2
    have hlt := fromLeBytes_lt (b.take f.width)
    have hback := toLeBytes_fromLeBytes (b.take f.width)
    rw [htake] at hlt hback
    refine ⟨(fromLeBytes (b.take f.width), vs), ⟨hlt, hacc.1, hfits⟩, ?_⟩
    calc b = b.take f.width ++ b.drop f.width := (List.take_append_drop _ _).symm
      _ = b.take f.width ++ (spell fs vs ++ (b.drop f.width).drop (len fs)) := by rw [← hb]
      _ = _ := by
          rw [spell, hback, List.drop_drop, len, List.append_assoc]

/-- A writer and a reader that agree on a layout. -/
structure Faithful {ε α : Type} (fs : List Field) (Valid : α → Prop) (encode : α → List UInt8)
    (decode : List UInt8 → Except ε (α × List UInt8)) : Prop where
  roundtrip : ∀ v, Valid v → ∀ p, decode (encode v ++ p) = .ok (v, p)
  reencode : ∀ b v r, decode b = .ok (v, r) →
    Valid v ∧ len fs ≤ b.length ∧ r = b.drop (len fs) ∧ encode v = canonical fs b
  rejects : ∀ b, (∃ e, decode b = .error e) ↔ b.length < len fs ∨ accepted fs b = false
  ignores : ∀ b p v r, decode (b ++ p) = .ok (v, r ++ p) ↔ decode b = .ok (v, r)

section OfSpellings

variable {ε α : Type} {fs : List Field} {Valid : α → Prop} {encode : α → List UInt8}
  {decode : List UInt8 → Except ε (α × List UInt8)}

/-- **A reader is known by what it makes of spellings.** -/
theorem Faithful.of_spellings (hround : ∀ v, Valid v → ∀ p, decode (encode v ++ p) = .ok (v, p))
    (hread : ∀ vs, Fits fs vs → ∃ v, Valid v ∧ encode v = spell fs (canon fs vs) ∧ ∀ r, decode (spell fs vs ++ r) = .ok (v, r))
    (hinv : ∀ b v r, decode b = .ok (v, r) → ∃ vs, Fits fs vs ∧ b = spell fs vs ++ r) :
    Faithful fs Valid encode decode := by
  refine ⟨hround, ?_, ?_, ?_⟩
  · intro b v r h
    obtain ⟨vs, hfits, rfl⟩ := hinv b v r h
    obtain ⟨v', hvalid, henc, hdec⟩ := hread vs hfits
    obtain ⟨rfl, -⟩ := Prod.mk.inj (Except.ok.inj ((hdec r).symm.trans h))
    refine ⟨hvalid, ?_, ?_, ?_⟩
    · simp
    · rw [List.drop_left' (length_spell fs vs)]
    · rw [henc, canonical_spell hfits]
  · intro b
    constructor
    · rintro ⟨e, he⟩
      by_contra hgood
      rw [not_or, not_lt, Bool.not_eq_false] at hgood
      obtain ⟨vs, hfits, hb⟩ := exists_spell hgood.1 hgood.2
      obtain ⟨v, -, -, hdec⟩ := hread vs hfits
      rw [hb, hdec] at he
      cases he
    · intro hbad
      cases hd : decode b with
      | error e => exact ⟨e, rfl⟩
      | ok p =>
        -- An accepted string is a spelling, which is neither short nor refused.
        obtain ⟨vs, hfits, rfl⟩ := hinv b p.1 p.2 hd
        rw [accepted_spell hfits, List.length_append, length_spell] at hbad
        rcases hbad with hbad | hbad
        · omega
        · cases hbad
  · intro b p v r
    constructor
    · intro h
      obtain ⟨vs, hfits, hb⟩ := hinv _ _ _ h
      obtain ⟨v', -, -, hdec⟩ := hread vs hfits
      have hsplit : b = spell fs vs ++ r := by
        rw [← List.append_assoc] at hb
        exact List.append_cancel_right hb
      rw [hb, hdec] at h
      cases h
      rw [hsplit, hdec]
    · intro h
      obtain ⟨vs, hfits, rfl⟩ := hinv b v r h
      obtain ⟨v', -, -, hdec⟩ := hread vs hfits
      obtain ⟨rfl, -⟩ := Prod.mk.inj (Except.ok.inj ((hdec r).symm.trans h))
      rw [List.append_assoc, hdec]

end OfSpellings

/-! ### One layout after another -/

theorem len_append (fs gs : List Field) : len (fs ++ gs) = len fs + len gs := by
  induction fs with
  | nil => simp [len]
  | cons f fs ih => rw [List.cons_append, len, len, ih, Nat.add_assoc]

theorem accepted_append (fs gs : List Field) (b : List UInt8) :
    accepted (fs ++ gs) b = (accepted fs b && accepted gs (b.drop (len fs))) := by
  induction fs generalizing b with
  | nil => rfl
  | cons f fs ih =>
    rw [List.cons_append, accepted, accepted, ih, len, List.drop_drop, Bool.and_assoc]

theorem canonical_append (fs gs : List Field) (b : List UInt8) :
    canonical (fs ++ gs) b = canonical fs b ++ canonical gs (b.drop (len fs)) := by
  induction fs generalizing b with
  | nil => rfl
  | cons f fs ih =>
    rw [List.cons_append, canonical, canonical, ih, len, List.drop_drop, List.append_assoc]

/-- A layout repeated. -/
def copies (k : ℕ) (fs : List Field) : List Field := (List.replicate k fs).flatten

theorem copies_succ (k : ℕ) (fs : List Field) : copies (k + 1) fs = fs ++ copies k fs := by
  rw [copies, List.replicate_succ, List.flatten_cons, copies]

section AndThen

variable {ε α β : Type} {fs gs : List Field} {P : α → Prop} {Q : β → Prop}
  {encode : α → List UInt8} {decode : List UInt8 → Except ε (α × List UInt8)}
  {encode' : β → List UInt8} {decode' : List UInt8 → Except ε (β × List UInt8)}

theorem Faithful.accepts (h : Faithful fs P encode decode) {b : List UInt8} :
    (∃ v r, decode b = .ok (v, r)) ↔ len fs ≤ b.length ∧ accepted fs b = true := by
  rw [← not_exists_error, h.rejects b, not_or, not_lt, Bool.not_eq_false]

/-- Two readers, one on what the other left. -/
def andThen (decode : List UInt8 → Except ε (α × List UInt8))
    (decode' : List UInt8 → Except ε (β × List UInt8)) (b : List UInt8) :
    Except ε ((α × β) × List UInt8) := do
  let (v, rest) ← decode b
  let (w, rest) ← decode' rest
  return ((v, w), rest)

theorem andThen_eq_ok {b r : List UInt8} {v : α} {w : β} :
    andThen decode decode' b = .ok ((v, w), r) ↔
      ∃ rest, decode b = .ok (v, rest) ∧ decode' rest = .ok (w, r) := by
  simp only [andThen, bind_eq_ok, Prod.exists]
  constructor
  · rintro ⟨v', rest, h, w', r', h', hout⟩
    cases hout
    exact ⟨rest, h, h'⟩
  · rintro ⟨rest, h, h'⟩
    exact ⟨v, rest, h, w, r, h', rfl⟩

/-- **Two formats in a row are a format.** -/
theorem Faithful.andThen (h : Faithful fs P encode decode)
    (h' : Faithful gs Q encode' decode') :
    Faithful (fs ++ gs) (fun p : α × β => P p.1 ∧ Q p.2) (fun p => encode p.1 ++ encode' p.2)
      (andThen decode decode') := by
  have haccepts : ∀ b, (∃ p r, Layout.andThen decode decode' b = .ok (p, r)) ↔
      len (fs ++ gs) ≤ b.length ∧ accepted (fs ++ gs) b = true := by
    intro b
    rw [len_append, accepted_append, Bool.and_eq_true]
    constructor
    · rintro ⟨⟨v, w⟩, r, hb⟩
      obtain ⟨rest, hv, hw⟩ := andThen_eq_ok.mp hb
      obtain ⟨hlen, hacc⟩ := h.accepts.mp ⟨v, rest, hv⟩
      obtain ⟨hlen', hacc'⟩ := h'.accepts.mp ⟨w, r, hw⟩
      obtain ⟨-, -, rfl, -⟩ := h.reencode b v rest hv
      rw [List.length_drop] at hlen'
      exact ⟨by omega, hacc, hacc'⟩
    · rintro ⟨hlen, hacc, hacc'⟩
      obtain ⟨v, rest, hv⟩ := h.accepts.mpr ⟨by omega, hacc⟩
      obtain ⟨-, -, rfl, -⟩ := h.reencode b v rest hv
      obtain ⟨w, r, hw⟩ := h'.accepts.mpr ⟨by rw [List.length_drop]; omega, hacc'⟩
      exact ⟨(v, w), r, andThen_eq_ok.mpr ⟨_, hv, hw⟩⟩
  refine ⟨?_, ?_, ?_, ?_⟩
  · rintro ⟨v, w⟩ ⟨hv, hw⟩ p
    rw [List.append_assoc]
    exact andThen_eq_ok.mpr ⟨_, h.roundtrip v hv _, h'.roundtrip w hw p⟩
  · rintro b ⟨v, w⟩ r hb
    obtain ⟨rest, hv, hw⟩ := andThen_eq_ok.mp hb
    obtain ⟨hP, -, rfl, henc⟩ := h.reencode b v rest hv
    obtain ⟨hQ, -, rfl, henc'⟩ := h'.reencode _ w r hw
    refine ⟨⟨hP, hQ⟩, ((haccepts b).mp ⟨_, _, hb⟩).1, ?_, ?_⟩
    · rw [List.drop_drop, len_append]
    · rw [henc, henc', canonical_append]
  · intro b
    rw [← not_iff_not, not_exists_error, haccepts, not_or, not_lt, Bool.not_eq_false]
  · rintro b p ⟨v, w⟩ r
    rw [andThen_eq_ok, andThen_eq_ok]
    constructor
    · rintro ⟨rest, hv, hw⟩
      -- What the first reader left is at least the second one's bytes and `p`.
      obtain ⟨-, hfront, hrest, -⟩ := h.reencode _ v rest hv
      obtain ⟨-, hlen, hr, -⟩ := h'.reencode rest w _ hw
      rw [List.length_append] at hfront
      have hcount := congrArg List.length hr
      rw [List.length_append, List.length_drop] at hcount
      have htotal := congrArg List.length hrest
      rw [List.length_drop, List.length_append] at htotal
      have hsplit : rest = b.drop (len fs) ++ p := by
        rw [hrest, List.drop_append_of_le_length (by omega)]
      rw [hsplit] at hv hw
      exact ⟨_, (h.ignores b p v _).mp hv, (h'.ignores _ p w r).mp hw⟩
    · rintro ⟨rest, hv, hw⟩
      exact ⟨rest ++ p, (h.ignores b p v rest).mpr hv, (h'.ignores rest p w r).mpr hw⟩

end AndThen

end Layout
