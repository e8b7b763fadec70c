/-
Compact JSON texts.

`string`, `array` and `object` write a value without white space, escaping what must be
escaped and nothing else.  Texts are lists of characters; `utf8Size` counts their bytes, and
the size of a value is given in those of its parts (`utf8Size_string_le`, `utf8Size_array`,
`utf8Size_object`).
-/
import Mathlib

namespace Json

/-- The bytes of a text. -/
def utf8Size (s : List Char) : ℕ := (s.map Char.utf8Size).sum

@[simp] theorem utf8Size_nil : utf8Size [] = 0 := rfl

@[simp] theorem utf8Size_cons (c : Char) (s : List Char) :
    utf8Size (c :: s) = c.utf8Size + utf8Size s := rfl

@[simp] theorem utf8Size_append (s t : List Char) : utf8Size (s ++ t) = utf8Size s + utf8Size t := by
  simp [utf8Size]

theorem length_utf8Encode (s : List Char) :
    (s.flatMap String.utf8EncodeChar).length = utf8Size s := by
  rw [List.length_flatMap, utf8Size]
  simp

/-- One lowercase hexadecimal digit. -/
def hexDigit (n : ℕ) : Char := Char.ofNat (if n < 10 then 48 + n else 87 + n)

theorem utf8Size_hexDigit {n : ℕ} (h : n < 16) : (hexDigit n).utf8Size = 1 := by
  interval_cases n <;> rfl

/-- A character inside a string. -/
def escape (c : Char) : List Char :=
  if c = '"' then ['\\', '"']
  else if c = '\\' then ['\\', '\\']
  else if c.toNat = 8 then ['\\', 'b']
  else if c.toNat = 9 then ['\\', 't']
  else if c.toNat = 10 then ['\\', 'n']
  else if c.toNat = 12 then ['\\', 'f']
  else if c.toNat = 13 then ['\\', 'r']
  else if c.toNat < 32 then ['\\', 'u', '0', '0', hexDigit (c.toNat / 16), hexDigit (c.toNat % 16)]
  else [c]

def string (s : List Char) : List Char := '"' :: (s.flatMap escape ++ ['"'])

def array (items : List (List Char)) : List Char := '[' :: ([','].intercalate items ++ [']'])

def object (fields : List (List Char × List Char)) : List Char :=
  '\x7b' :: ([','].intercalate (fields.map fun f => string f.1 ++ ':' :: f.2) ++ ['\x7d'])

def bool : Bool → List Char
  | true => "true".toList
  | false => "false".toList

def null : List Char := "null".toList

/-- A number without fraction. -/
def int (n : ℤ) : List Char := (toString n).toList

/-! ### Sizes -/

theorem escape_of_plain {c : Char} (h : 32 ≤ c.toNat) (hquote : c ≠ '"') (hback : c ≠ '\\') :
    escape c = [c] := by
  unfold escape
  simp only [hquote, hback, if_false]
  split_ifs <;> first | rfl | omega

theorem utf8Size_string_of_plain {s : List Char} (h : ∀ c ∈ s, escape c = [c]) :
    utf8Size (string s) = utf8Size s + 2 := by
  have hs : s.flatMap escape = s := by
    induction s with
    | nil => rfl
    | cons c s ih =>
      rw [List.flatMap_cons, h c List.mem_cons_self,
        ih fun c' hc' => h c' (List.mem_cons_of_mem _ hc')]
      rfl
  have hquote : '"'.utf8Size = 1 := rfl
  rw [string, hs, utf8Size_cons, utf8Size_append, utf8Size_cons, utf8Size_nil, hquote]
  omega

theorem utf8Size_escape_le (c : Char) : utf8Size (escape c) ≤ 6 * c.utf8Size := by
  by_cases hquote : c = '"'
  · rw [hquote]
    decide
  by_cases hback : c = '\\'
  · rw [hback]
    decide
  by_cases hcontrol : 32 ≤ c.toNat
  · rw [escape_of_plain hcontrol hquote hback, utf8Size_cons, utf8Size_nil]
    omega
  -- the escapes of the control characters
  · have hc : Char.ofNat c.toNat = c := Char.ofNat_toNat c
    generalize c.toNat = n at hc hcontrol
    subst hc
    have hn : n < 32 := by omega
    interval_cases n <;> decide

theorem utf8Size_string_le (s : List Char) : utf8Size (string s) ≤ 6 * utf8Size s + 2 := by
  have hquote : '"'.utf8Size = 1 := rfl
  have hbody : utf8Size (s.flatMap escape) ≤ 6 * utf8Size s := by
    induction s with
    | nil => exact Nat.zero_le _
    | cons c s ih =>
      have hc := utf8Size_escape_le c
      rw [List.flatMap_cons, utf8Size_append, utf8Size_cons]
      omega
  rw [string, utf8Size_cons, utf8Size_append, utf8Size_cons, utf8Size_nil, hquote]
  omega

theorem utf8Size_intercalate (items : List (List Char)) :
    utf8Size ([','].intercalate items) = (items.map utf8Size).sum + (items.length - 1) := by
  have hcomma : ','.utf8Size = 1 := rfl
  induction items with
  | nil => rfl
  | cons a items ih =>
    cases items with
    | nil => simp
    | cons b items =>
      rw [List.intercalate_cons_cons, utf8Size_append, utf8Size_append, ih, utf8Size_cons,
        utf8Size_nil, hcomma]
      simp only [List.map_cons, List.sum_cons, List.length_cons]
      omega

theorem utf8Size_array (items : List (List Char)) :
    utf8Size (array items) = (items.map utf8Size).sum + (items.length - 1) + 2 := by
  have hopen : '['.utf8Size = 1 := rfl
  have hclose : ']'.utf8Size = 1 := rfl
  rw [array, utf8Size_cons, utf8Size_append, utf8Size_intercalate, utf8Size_cons, utf8Size_nil,
    hopen, hclose]
  omega

theorem utf8Size_object (fields : List (List Char × List Char)) :
    utf8Size (object fields) =
      (fields.map fun f => utf8Size (string f.1) + utf8Size f.2 + 1).sum + (fields.length - 1) + 2 := by
  have hopen : '\x7b'.utf8Size = 1 := rfl
  have hclose : '\x7d'.utf8Size = 1 := rfl
  have hcolon : ':'.utf8Size = 1 := rfl
  have hfields : (fields.map fun f => string f.1 ++ ':' :: f.2).map utf8Size =
      fields.map fun f => utf8Size (string f.1) + utf8Size f.2 + 1 := by
    rw [List.map_map]
    refine List.map_congr_left fun f _ => ?_
    rw [Function.comp_apply, utf8Size_append, utf8Size_cons, hcolon]
    omega
  rw [object, utf8Size_cons, utf8Size_append, utf8Size_intercalate, hfields, utf8Size_cons,
    utf8Size_nil, List.length_map, hopen, hclose]
  omega

end Json
