/-
JSON values, their compact texts, and a reader of them.

A value is what a serialiser writes: numbers are natural, and the fields of an object stand in
the order they are written in.  The reader takes a text of UTF-8 bytes with white space between
the tokens, and its fuel is the length of the text.

* **`read_text`** — a written value is read back as it, with white space behind it or without.
* **`Reader`** — what a program relies on in a reader that it does not own: such a text, as
  long as its nesting and its numbers stay within the usual limits.
-/
import NebulaDesk.Lib.Json
import NebulaDesk.Lib.Numeral

namespace Json

inductive Value
  | null
  | bool (b : Bool)
  | number (n : ℕ)
  | string (s : List Char)
  | array (items : List Value)
  | object (fields : List (List Char × Value))

mutual

/-- The compact text. -/
def Value.text : Value → List Char
  | .null => Json.null
  | .bool b => Json.bool b
  | .number n => Nat.toDigits 10 n
  | .string s => Json.string s
  | .array items => Json.array (texts items)
  | .object fields => Json.object (fieldTexts fields)

def texts : List Value → List (List Char)
  | [] => []
  | v :: vs => v.text :: texts vs

def fieldTexts : List (List Char × Value) → List (List Char × List Char)
  | [] => []
  | (name, v) :: fields => (name, v.text) :: fieldTexts fields

end

theorem texts_eq_map (vs : List Value) : texts vs = vs.map Value.text := by
  induction vs with
  | nil => rfl
  | cons v vs ih => rw [texts, ih, List.map_cons]

mutual

/-- The value nests less than `depth` deep and has numbers of 64 bits only. -/
def Value.fits : ℕ → Value → Bool
  | _, .null => true
  | _, .bool _ => true
  | _, .number n => n < 2 ^ 64
  | _, .string _ => true
  | depth, .array items => 1 < depth && fitsAll (depth - 1) items
  | depth, .object fields => 1 < depth && fitsFields (depth - 1) fields

def fitsAll : ℕ → List Value → Bool
  | _, [] => true
  | depth, v :: vs => v.fits depth && fitsAll depth vs

def fitsFields : ℕ → List (List Char × Value) → Bool
  | _, [] => true
  | depth, (_, v) :: fields => v.fits depth && fitsFields depth fields

end

/-- The bytes of a text. -/
def utf8 (s : List Char) : List UInt8 := s.flatMap String.utf8EncodeChar

/-- White space between tokens. -/
def white (c : Char) : Bool := c = ' ' || c = '\n' || c = '\t' || c = '\r'

/-- A reader of texts, with what it does on those written here. -/
structure Reader where
  read : List UInt8 → Option Value
  /-- White space behind the value is passed over. -/
  read_text : ∀ (v : Value) (space : List Char), v.fits 128 → (∀ c ∈ space, white c) →
    read (utf8 (v.text ++ space)) = some v

/-! ### A reader -/

def skip (s : List Char) : List Char := s.dropWhile white

/-- What stands for itself behind a backslash, or for a control character. -/
def short (c : Char) : Option Char :=
  if c = '"' then some '"'
  else if c = '\\' then some '\\'
  else if c = '/' then some '/'
  else if c = 'b' then some (Char.ofNat 8)
  else if c = 'f' then some (Char.ofNat 12)
  else if c = 'n' then some '\n'
  else if c = 'r' then some '\r'
  else if c = 't' then some '\t'
  else none

/-- The character that an escape stands for, behind the backslash: `\uXXXX` names one
character. -/
def unescape : List Char → Option (Char × List Char)
  | [] => none
  | c :: s =>
    if c = 'u' then do
      let ds ← (s.take 4).mapM (Numeral.toDigit 16)
      if ds.length = 4 ∧ (Numeral.value 16 ds).isValidChar then
        some (Char.ofNat (Numeral.value 16 ds), s.drop 4)
      else none
    else (short c).map (·, s)

/-- The characters of a string up to its closing quote. -/
def readChars : ℕ → List Char → Option (List Char × List Char)
  | 0, _ => none
  | _ + 1, [] => none
  | fuel + 1, c :: s =>
    if c = '"' then some ([], s)
    else if c = '\\' then do
      let (c, s) ← unescape s
      let (t, s) ← readChars fuel s
      some (c :: t, s)
    else if c.toNat < 32 then none
    else do
      let (t, s) ← readChars fuel s
      some (c :: t, s)

/-- The text behind a fixed word. -/
def word (w : List Char) (s : List Char) : Option (List Char) :=
  if w <+: s then some (s.drop w.length) else none

/-- A number without a fraction: no zero stands in front of another digit. -/
def readNumber (s : List Char) : Option (Value × List Char) :=
  let (ds, rest) := Numeral.scan 10 s
  if ds.length = 0 ∨ (ds.head? = some 0 ∧ 1 < ds.length) then none
  else some (.number (Numeral.value 10 ds), rest)

mutual

def readValue : ℕ → List Char → Option (Value × List Char)
  | 0, _ => none
  | fuel + 1, s =>
    match skip s with
    | [] => none
    | c :: s =>
      if c = 'n' then (word "ull".toList s).map (.null, ·)
      else if c = 't' then (word "rue".toList s).map (.bool true, ·)
      else if c = 'f' then (word "alse".toList s).map (.bool false, ·)
      else if c = '"' then (readChars (s.length + 1) s).map fun r => (.string r.1, r.2)
      else if c = '[' then
        if (skip s).head? = some ']' then some (.array [], (skip s).tail)
        else (readItems fuel s).map fun r => (.array r.1, r.2)
      else if c = '\x7b' then
        if (skip s).head? = some '\x7d' then some (.object [], (skip s).tail)
        else (readFields fuel s).map fun r => (.object r.1, r.2)
      else readNumber (c :: s)

/-- The items of an array, one at least, and its closing bracket. -/
def readItems : ℕ → List Char → Option (List Value × List Char)
  | 0, _ => none
  | fuel + 1, s => do
    let (v, s) ← readValue fuel s
    match skip s with
    | [] => none
    | c :: s =>
      if c = ',' then do
        let (vs, s) ← readItems fuel s
        some (v :: vs, s)
      else if c = ']' then some ([v], s)
      else none

/-- The fields of an object, one at least, and its closing brace. -/
def readFields : ℕ → List Char → Option (List (List Char × Value) × List Char)
  | 0, _ => none
  | fuel + 1, s => do
    let s ← word ['"'] (skip s)
    let (name, s) ← readChars (s.length + 1) s
    let s ← word [':'] (skip s)
    let (v, s) ← readValue fuel s
    match skip s with
    | [] => none
    | c :: s =>
      if c = ',' then do
        let (fields, s) ← readFields fuel s
        some ((name, v) :: fields, s)
      else if c = '\x7d' then some ([(name, v)], s)
      else none

end

/-- The value that a whole text is. -/
def read (bytes : List UInt8) : Option Value := do
  let chars ← bytes.toByteArray.utf8Decode?
  let (v, rest) ← readValue (chars.toList.length + 1) chars.toList
  if skip rest = [] then some v else none

/-! ### Strings -/

theorem unescape_escape (c : Char) :
    (escape c = [c] ∧ c ≠ '"' ∧ c ≠ '\\' ∧ 32 ≤ c.toNat) ∨
      ∃ t, escape c = '\\' :: t ∧ ∀ s, unescape (t ++ s) = some (c, s) := by
  by_cases hquote : c = '"'
  · exact .inr ⟨['"'], by rw [hquote]; rfl, fun s => by rw [hquote]; rfl⟩
  by_cases hback : c = '\\'
  · exact .inr ⟨['\\'], by rw [hback]; rfl, fun s => by rw [hback]; rfl⟩
  by_cases hcontrol : 32 ≤ c.toNat
  · exact .inl ⟨escape_of_plain hcontrol hquote hback, hquote, hback, hcontrol⟩
  -- one of the control characters
  · refine .inr ?_
    have hc : Char.ofNat c.toNat = c := Char.ofNat_toNat c
    generalize c.toNat = n at hc hcontrol
    subst hc
    have hn : n < 32 := by omega
    interval_cases n <;> exact ⟨_, rfl, fun s => rfl⟩

theorem readChars_escape {t : List Char} {fuel : ℕ} (hfuel : t.length < fuel) (s : List Char) :
    readChars fuel (t.flatMap escape ++ '"' :: s) = some (t, s) := by
  induction t generalizing fuel with
  | nil =>
    obtain ⟨fuel, rfl⟩ : ∃ m, fuel = m + 1 := ⟨fuel - 1, by simp at hfuel; omega⟩
    simp [readChars]
  | cons c t ih =>
    obtain ⟨fuel, rfl⟩ : ∃ m, fuel = m + 1 := ⟨fuel - 1, by simp at hfuel; omega⟩
    have hrest : readChars fuel (t.flatMap escape ++ '"' :: s) = some (t, s) :=
      ih (by simpa using hfuel)
    rw [List.flatMap_cons, List.append_assoc]
    rcases unescape_escape c with ⟨hplain, hquote, hback, hcontrol⟩ | ⟨u, hescape, hread⟩
    · rw [hplain, List.singleton_append, readChars, if_neg hquote, if_neg hback,
        if_neg (by omega), hrest]
      rfl
    · rw [hescape, List.cons_append, readChars, if_neg (by decide), if_pos rfl, hread]
      simp only [Option.bind_eq_bind, Option.bind_some, hrest]

theorem length_le_flatMap_escape (t : List Char) : t.length ≤ (t.flatMap escape).length := by
  induction t with
  | nil => exact Nat.zero_le _
  | cons c t ih =>
    have hc : 1 ≤ (escape c).length := by
      rcases unescape_escape c with ⟨hplain, -⟩ | ⟨u, hescape, -⟩
      · rw [hplain]
        rfl
      · rw [hescape, List.length_cons]
        omega
    rw [List.flatMap_cons, List.length_append, List.length_cons]
    omega

theorem readChars_string (t s : List Char) :
    readChars ((t.flatMap escape ++ '"' :: s).length + 1) (t.flatMap escape ++ '"' :: s) =
      some (t, s) := by
  have := length_le_flatMap_escape t
  exact readChars_escape (by rw [List.length_append]; omega) s

/-! ### Numbers -/

theorem readNumber_toDigits (n : ℕ) {s : List Char} (hs : Numeral.Stops 10 s) :
    readNumber (Nat.toDigits 10 n ++ s) = some (.number n, s) := by
  have hlength : (Numeral.digits 10 n).length ≠ 0 := by simpa using Numeral.digits_ne_nil 10 n
  have hzero : ¬ ((Numeral.digits 10 n).head? = some 0 ∧ 1 < (Numeral.digits 10 n).length) := by
    rintro ⟨hhead, hlong⟩
    rw [Numeral.digits_of_head_zero hhead] at hlong
    exact absurd hlong (lt_irrefl 1)
  unfold readNumber
  rw [Numeral.scan_toDigits (by decide) (by decide) n hs]
  simp only [hlength, hzero, or_self, if_false, Numeral.value_digits]

/-! ### Values -/

/-- A token does not begin with white space, nor does it close what holds it. -/
structure Opens (s : List Char) (c : Char) (t : List Char) : Prop where
  eq_cons : s = c :: t
  solid : white c = false
  bracket : c ≠ ']'
  brace : c ≠ '\x7d'

theorem skip_of_solid {c : Char} (h : white c = false) (s : List Char) : skip (c :: s) = c :: s := by
  rw [skip, List.dropWhile_cons, h]
  rfl

theorem toDigits_opens (n : ℕ) : ∃ c t, Opens (Nat.toDigits 10 n) c t ∧ (Numeral.toDigit 10 c).isSome := by
  have hdigits := Numeral.digits_lt (b := 10) (by decide) n
  rw [Numeral.toDigits_eq_map (by decide)]
  cases hds : Numeral.digits 10 n with
  | nil => exact absurd hds (Numeral.digits_ne_nil 10 n)
  | cons d ds =>
    have hd : d < 10 := hdigits d (by rw [hds]; exact List.mem_cons_self)
    refine ⟨d.digitChar, ds.map Nat.digitChar, ⟨rfl, ?_, ?_, ?_⟩, ?_⟩
    all_goals interval_cases d <;> decide

theorem text_opens (v : Value) : ∃ c t, Opens v.text c t := by
  cases v with
  | null => exact ⟨_, _, rfl, by decide, by decide, by decide⟩
  | bool b => cases b <;> exact ⟨_, _, rfl, by decide, by decide, by decide⟩
  | number n =>
    obtain ⟨c, t, h, -⟩ := toDigits_opens n
    exact ⟨c, t, by rw [Value.text]; exact h⟩
  | string s => exact ⟨_, _, rfl, by decide, by decide, by decide⟩
  | array items => exact ⟨_, _, rfl, by decide, by decide, by decide⟩
  | object fields => exact ⟨_, _, rfl, by decide, by decide, by decide⟩

def ReadsValue (fuel : ℕ) : Prop :=
  ∀ (v : Value) (s : List Char), v.text.length ≤ fuel → Numeral.Stops 10 s →
    readValue fuel (v.text ++ s) = some (v, s)

def ReadsItems (fuel : ℕ) : Prop :=
  ∀ (v : Value) (vs : List Value) (s : List Char),
    ([','].intercalate (texts (v :: vs))).length < fuel →
      readItems fuel ([','].intercalate (texts (v :: vs)) ++ ']' :: s) = some (v :: vs, s)

/-- The text of the fields between the braces. -/
def fieldsText (fields : List (List Char × Value)) : List Char :=
  [','].intercalate ((fieldTexts fields).map fun f => string f.1 ++ ':' :: f.2)

def ReadsFields (fuel : ℕ) : Prop :=
  ∀ (f : List Char × Value) (fields : List (List Char × Value)) (s : List Char),
    (fieldsText (f :: fields)).length < fuel →
      readFields fuel (fieldsText (f :: fields) ++ '\x7d' :: s) = some (f :: fields, s)

variable {n : ℕ}

theorem readsItems_step (hvalue : ReadsValue n) (hitems : ReadsItems n) : ReadsItems (n + 1) := by
  intro v vs s hfuel
  cases vs with
  | nil =>
    have hv := hvalue v (']' :: s) (by simpa [texts] using hfuel) (Numeral.stops_cons rfl s)
    have hone : [','].intercalate (texts [v]) = v.text := by simp [texts]
    rw [hone, readItems, hv]
    simp [skip_of_solid (c := ']') (by decide)]
  | cons w ws =>
    have hcons : [','].intercalate (texts (v :: w :: ws)) =
        v.text ++ ',' :: [','].intercalate (texts (w :: ws)) := by
      rw [texts, texts, List.intercalate_cons_cons, List.append_assoc]
      rfl
    rw [hcons] at hfuel ⊢
    rw [List.length_append, List.length_cons] at hfuel
    have hv := hvalue v (',' :: ([','].intercalate (texts (w :: ws)) ++ ']' :: s)) (by omega)
      (Numeral.stops_cons rfl _)
    have hrest := hitems w ws s (by omega)
    rw [List.append_assoc, List.cons_append, readItems, hv]
    simp [skip_of_solid (c := ',') (by decide), hrest]

theorem readsFields_step (hvalue : ReadsValue n) (hfields : ReadsFields n) :
    ReadsFields (n + 1) := by
  rintro ⟨name, v⟩ fields s hfuel
  -- the name, its colon and the value, before what separates them from the next
  have hhead : ∀ t : List Char, string name ++ ':' :: (v.text ++ t) =
      '"' :: (name.flatMap escape ++ '"' :: (':' :: (v.text ++ t))) := by
    intro t
    rw [string, List.cons_append, List.append_assoc]
    rfl
  have hquote : ∀ t : List Char, word ['"'] (skip ('"' :: t)) = some t := by
    intro t
    rw [skip_of_solid (by decide)]
    simp [word]
  have hcolon : ∀ t : List Char, word [':'] (skip (':' :: t)) = some t := by
    intro t
    rw [skip_of_solid (by decide)]
    simp [word]
  cases fields with
  | nil =>
    have hone : fieldsText [(name, v)] = string name ++ ':' :: v.text := by
      simp [fieldsText, fieldTexts]
    rw [hone] at hfuel ⊢
    rw [List.length_append, List.length_cons] at hfuel
    have hv := hvalue v ('\x7d' :: s) (by omega) (Numeral.stops_cons rfl s)
    rw [List.append_assoc, List.cons_append, hhead, readFields]
    simp only [hquote, Option.bind_eq_bind, Option.bind_some, readChars_string, hcolon, hv,
      skip_of_solid (c := '\x7d') (by decide)]
    rfl
  | cons f fields =>
    have hcons : fieldsText ((name, v) :: f :: fields) =
        (string name ++ ':' :: v.text) ++ ',' :: fieldsText (f :: fields) := by
      rw [fieldsText, fieldTexts, fieldsText, List.map_cons]
      cases hmap : (fieldTexts (f :: fields)).map fun f => string f.1 ++ ':' :: f.2 with
      | nil => rw [fieldTexts] at hmap; cases hmap
      | cons a l =>
        rw [List.intercalate_cons_cons, List.append_assoc]
        rfl
    rw [hcons] at hfuel ⊢
    rw [List.length_append, List.length_append, List.length_cons, List.length_cons] at hfuel
    have hv := hvalue v (',' :: (fieldsText (f :: fields) ++ '\x7d' :: s)) (by omega)
      (Numeral.stops_cons rfl _)
    have hrest := hfields f fields s (by omega)
    rw [List.append_assoc, List.append_assoc, List.cons_append, List.cons_append, hhead, readFields]
    simp only [hquote, Option.bind_eq_bind, Option.bind_some, readChars_string, hcolon, hv,
      skip_of_solid (c := ',') (by decide), if_true, hrest]

theorem readValue_bracket {c : Char} {u s : List Char} {vs : List Value}
    (hsolid : white c = false) (hne : c ≠ ']') (h : readItems n (c :: u) = some (vs, s)) :
    readValue (n + 1) ('[' :: c :: u) = some (.array vs, s) := by
  rw [readValue, skip_of_solid (by decide)]
  simp [skip_of_solid hsolid, hne, h]

theorem readValue_brace {u s : List Char} {fields : List (List Char × Value)}
    (h : readFields n ('"' :: u) = some (fields, s)) :
    readValue (n + 1) ('\x7b' :: '"' :: u) = some (.object fields, s) := by
  rw [readValue, skip_of_solid (by decide)]
  simp [skip_of_solid (c := '"') (by decide), h]

theorem readsValue_step (hitems : ReadsItems n) (hfields : ReadsFields n) : ReadsValue (n + 1) := by
  intro v s hfuel hs
  cases v with
  | null => rfl
  | bool b => cases b <;> rfl
  | number k =>
    obtain ⟨c, t, hopens, hdigit⟩ := toDigits_opens k
    have hne : ∀ c' : Char, Numeral.toDigit 10 c' = none → c ≠ c' := by
      rintro c' hnone rfl
      rw [hnone] at hdigit
      cases hdigit
    have hread := readNumber_toDigits k hs
    rw [Value.text, hopens.eq_cons, List.cons_append] at *
    rw [readValue, skip_of_solid hopens.solid]
    simp only [hne 'n' rfl, hne 't' rfl, hne 'f' rfl, hne '"' rfl, hne '[' rfl, hne '\x7b' rfl,
      if_false, hread]
  | string t =>
    have hread := readChars_string t s
    rw [Value.text, string, List.cons_append, List.append_assoc, List.singleton_append, readValue,
      skip_of_solid (by decide)]
    simp only [Char.reduceEq, if_false, if_true, hread, Option.map_some]
  | array items =>
    cases items with
    | nil => rfl
    | cons v vs =>
      obtain ⟨c, t, hopens⟩ := text_opens v
      have hlength : ([','].intercalate (texts (v :: vs))).length < n := by
        rw [Value.text, array, List.length_cons, List.length_append, List.length_singleton] at hfuel
        omega
      obtain ⟨u, hu⟩ : ∃ u, [','].intercalate (texts (v :: vs)) = c :: u := by
        rw [texts]
        cases texts vs with
        | nil => exact ⟨t, by rw [List.intercalate_singleton, hopens.eq_cons]⟩
        | cons a l =>
          exact ⟨t ++ ([','] ++ [','].intercalate (a :: l)), by
            rw [List.intercalate_cons_cons, hopens.eq_cons, List.append_assoc, List.cons_append]⟩
      have hread := hitems v vs s hlength
      rw [hu, List.cons_append] at hread
      have htext : (Value.array (v :: vs)).text ++ s = '[' :: c :: (u ++ ']' :: s) := by
        rw [Value.text, array, hu, List.cons_append, List.append_assoc]
        rfl
      rw [htext]
      exact readValue_bracket hopens.solid hopens.bracket hread
  | object fields =>
    cases fields with
    | nil => rfl
    | cons f fields =>
      have hlength : (fieldsText (f :: fields)).length < n := by
        rw [Value.text, object, List.length_cons, List.length_append, List.length_singleton] at hfuel
        rw [fieldsText]
        omega
      obtain ⟨u, hu⟩ : ∃ u, fieldsText (f :: fields) = '"' :: u := by
        rw [fieldsText, fieldTexts, List.map_cons]
        cases (fieldTexts fields).map fun f => string f.1 ++ ':' :: f.2 with
        | nil => exact ⟨_, List.intercalate_singleton⟩
        | cons a l => exact ⟨_, by rw [List.intercalate_cons_cons, string]; rfl⟩
      have hread := hfields f fields s hlength
      rw [hu, List.cons_append] at hread
      have htext : (Value.object (f :: fields)).text ++ s = '\x7b' :: '"' :: (u ++ '\x7d' :: s) := by
        rw [Value.text, object, ← fieldsText, hu, List.cons_append, List.append_assoc]
        rfl
      rw [htext]
      exact readValue_brace hread

theorem reads (n : ℕ) : ReadsValue n ∧ ReadsItems n ∧ ReadsFields n := by
  induction n with
  | zero =>
    refine ⟨fun v s hfuel => ?_, fun _ _ _ hfuel => absurd hfuel (Nat.not_lt_zero _),
      fun _ _ _ hfuel => absurd hfuel (Nat.not_lt_zero _)⟩
    obtain ⟨c, t, hopens⟩ := text_opens v
    rw [hopens.eq_cons] at hfuel
    exact absurd hfuel (Nat.not_succ_le_zero _)
  | succ n ih =>
    obtain ⟨hvalue, hitems, hfields⟩ := ih
    exact ⟨readsValue_step hitems hfields, readsItems_step hvalue hitems,
      readsFields_step hvalue hfields⟩

theorem read_text (v : Value) (space : List Char) (hspace : ∀ c ∈ space, white c) :
    read (utf8 (v.text ++ space)) = some v := by
  have hdecode : (utf8 (v.text ++ space)).toByteArray.utf8Decode? =
      some (v.text ++ space).toArray := List.utf8Decode?_utf8Encode
  have hstops : Numeral.Stops 10 space := by
    intro c hc
    have hwhite := hspace c (List.mem_of_mem_head? hc)
    simp only [white, Bool.or_eq_true, decide_eq_true_eq] at hwhite
    rcases hwhite with ((rfl | rfl) | rfl) | rfl <;> rfl
  have hskip : skip space = [] := List.dropWhile_eq_nil_iff.mpr hspace
  have hvalue := (reads ((v.text ++ space).length + 1)).1 v space
    (by rw [List.length_append]; omega) hstops
  unfold read
  simp only [hdecode, Option.bind_eq_bind, Option.bind_some, hvalue, hskip, if_true]

/-- The reader above, as one that a program may use. -/
def reader : Reader where
  read := read
  read_text := fun v space _ hspace => read_text v space hspace

/-! ### No line ends inside a text -/

/-- No character of a text is a control character. -/
def Printed (s : List Char) : Prop := ∀ c ∈ s, 32 ≤ c.toNat

/-- By the list, and not by all characters. -/
instance (s : List Char) : Decidable (Printed s) := List.decidableBAll _ s

theorem Printed.append {s t : List Char} (hs : Printed s) (ht : Printed t) : Printed (s ++ t) := by
  intro c hc
  rcases List.mem_append.mp hc with h | h
  · exact hs c h
  · exact ht c h

theorem Printed.cons {c : Char} {s : List Char} (hc : 32 ≤ c.toNat) (hs : Printed s) :
    Printed (c :: s) := by
  intro c' hc'
  rcases List.mem_cons.mp hc' with rfl | h
  · exact hc
  · exact hs c' h

theorem printed_escape (c : Char) : Printed (escape c) := by
  by_cases hquote : c = '"'
  · rw [hquote]
    decide
  by_cases hback : c = '\\'
  · rw [hback]
    decide
  by_cases hcontrol : 32 ≤ c.toNat
  · intro c' hc'
    rw [escape_of_plain hcontrol hquote hback] at hc'
    rwa [List.mem_singleton.mp hc']
  -- the escapes of the control characters
  · have hc : Char.ofNat c.toNat = c := Char.ofNat_toNat c
    generalize c.toNat = n at hc hcontrol
    subst hc
    have hn : n < 32 := by omega
    interval_cases n <;> decide

theorem printed_string (s : List Char) : Printed (string s) := by
  refine .cons (by decide) (.append ?_ (.cons (by decide) (by simp [Printed])))
  intro c hc
  obtain ⟨c', -, hc'⟩ := List.mem_flatMap.mp hc
  exact printed_escape c' c hc'

theorem printed_intercalate {l : List (List Char)} (h : ∀ s ∈ l, Printed s) :
    Printed ([','].intercalate l) := by
  induction l with
  | nil => simp [Printed]
  | cons a l ih =>
    cases l with
    | nil => simpa using h a List.mem_cons_self
    | cons b l =>
      rw [List.intercalate_cons_cons]
      exact ((h a List.mem_cons_self).append (.cons (by decide) (by simp [Printed]))).append
        (ih fun s hs => h s (List.mem_cons_of_mem _ hs))

theorem printed_array {l : List (List Char)} (h : ∀ s ∈ l, Printed s) : Printed (array l) :=
  .cons (by decide) ((printed_intercalate h).append (.cons (by decide) (by simp [Printed])))

theorem printed_object {l : List (List Char × List Char)} (h : ∀ f ∈ l, Printed f.2) :
    Printed (object l) := by
  refine .cons (by decide) (.append (printed_intercalate ?_) (.cons (by decide) (by simp [Printed])))
  intro s hs
  obtain ⟨f, hf, rfl⟩ := List.mem_map.mp hs
  exact (printed_string f.1).append (.cons (by decide) (h f hf))

mutual

theorem Value.printed_text : ∀ v : Value, Printed v.text
  | .null => by simp only [Value.text]; decide
  | .bool true => by simp only [Value.text]; decide
  | .bool false => by simp only [Value.text]; decide
  | .number n => by
    rw [Value.text, Numeral.toDigits_eq_map (by decide)]
    intro c hc
    obtain ⟨d, hd, rfl⟩ := List.mem_map.mp hc
    have hlt := Numeral.digits_lt (by decide) n d hd
    interval_cases d <;> decide
  | .string s => by rw [Value.text]; exact printed_string s
  | .array items => by rw [Value.text]; exact printed_array (printed_texts items)
  | .object fields => by rw [Value.text]; exact printed_object (printed_fieldTexts fields)

theorem printed_texts : ∀ vs : List Value, ∀ s ∈ texts vs, Printed s
  | [] => fun s hs => by cases hs
  | v :: vs => fun s hs => by
    rcases List.mem_cons.mp hs with rfl | hs
    · exact v.printed_text
    · exact printed_texts vs s hs

theorem printed_fieldTexts : ∀ fields : List (List Char × Value), ∀ f ∈ fieldTexts fields, Printed f.2
  | [] => fun f hf => by cases hf
  | (_, v) :: fields => fun f hf => by
    rcases List.mem_cons.mp hf with rfl | hf
    · exact v.printed_text
    · exact printed_fieldTexts fields f hf

end

theorem lineEnd_notMem_utf8 {s : List Char} (h : Printed s) : 10 ∉ utf8 s := by
  intro hmem
  obtain ⟨c, hc, hbyte⟩ := List.mem_flatMap.mp hmem
  have h32 : 32 ≤ c.val.toNat := h c hc
  have hbyte' : ∀ k : ℕ, 10 = UInt8.ofNat k → k % 256 = 10 := by
    intro k hk
    have := congrArg UInt8.toNat hk
    rw [UInt8.toNat_ofNat'] at this
    exact this.symm
  unfold String.utf8EncodeChar at hbyte
  simp only at hbyte
  -- a single byte is the character; the bytes of a longer code all have their top bit set
  split_ifs at hbyte
  all_goals simp only [List.mem_cons, List.not_mem_nil, or_false] at hbyte
  · have := hbyte' _ hbyte
    omega
  · rcases hbyte with hbyte | hbyte <;> have := hbyte' _ hbyte <;> omega
  · rcases hbyte with hbyte | hbyte | hbyte <;> have := hbyte' _ hbyte <;> omega
  · rcases hbyte with hbyte | hbyte | hbyte | hbyte <;> have := hbyte' _ hbyte <;> omega

/-! ### Data in a value -/

namespace Value

def asBool : Value → Option Bool
  | .bool b => some b
  | _ => none

/-- A number below `bound`. -/
def asNumber (bound : ℕ) : Value → Option ℕ
  | .number n => if n < bound then some n else none
  | _ => none

theorem asNumber_of_lt {n bound : ℕ} (h : n < bound) : (number n).asNumber bound = some n :=
  if_pos h

def asString : Value → Option (List Char)
  | .string s => some s
  | _ => none

def asArray : Value → Option (List Value)
  | .array items => some items
  | _ => none

def asObject : Value → Option (List (List Char × Value))
  | .object fields => some fields
  | _ => none

end Value

/-- The field of a name, which an object does not have twice. -/
def member (fields : List (List Char × Value)) (name : List Char) : Option (Option Value) :=
  match fields.filter (·.1 = name) with
  | [] => some none
  | [f] => some (some f.2)
  | _ => none

/-- A field that has to be there. -/
def required (fields : List (List Char × Value)) (name : List Char) : Option Value :=
  (member fields name).join

end Json
