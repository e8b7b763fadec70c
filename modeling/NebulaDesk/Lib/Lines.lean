/-
Bounded lines of a buffered stream.

A stream comes in chunks, as its buffer is filled, and ends with an empty one or none.  A line is
read up to its line feed without taking more than `limit` bytes, and what is left of the last chunk
stays in the buffer.

* **`readLine_line`** — however the stream is cut into chunks, a line that fits is read whole and
  no byte behind it is taken.
-/
import Mathlib

namespace Lines

/-- What a read comes to. -/
inductive Line
  | line (bytes : List UInt8)
  | tooLong
  /-- The stream has ended between two lines. -/
  | ended
  /-- The stream has ended within a line. -/
  | unterminated
deriving DecidableEq

/-- The chunks after some bytes of the first are consumed. -/
def consume (available : List UInt8) (later : List (List UInt8)) (n : ℕ) : List (List UInt8) :=
  if available.drop n = [] then later else available.drop n :: later

/-- The rest of a line of which some bytes are read. -/
def readLine (limit : ℕ) : List UInt8 → List (List UInt8) → Line × List (List UInt8)
  | line, [] => (if line = [] then .ended else .unterminated, [])
  | line, available :: later =>
    if available = [] then (if line = [] then .ended else .unterminated, available :: later)
    else
      match available.findIdx? (· = 10) with
      | some n =>
        if limit < line.length + (n + 1) then (.tooLong, available :: later)
        else (.line (line ++ available.take (n + 1)), consume available later (n + 1))
      | none =>
        if limit < line.length + available.length then (.tooLong, available :: later)
        else readLine limit (line ++ available) later

/-- The chunks of a stream that has not ended. -/
def Filled (chunks : List (List UInt8)) : Prop := ∀ c ∈ chunks, c ≠ []

theorem flatten_consume (available : List UInt8) (later : List (List UInt8)) (n : ℕ) :
    (consume available later n).flatten = available.drop n ++ later.flatten := by
  unfold consume
  split
  · next h => rw [h, List.nil_append]
  · rw [List.flatten_cons]

theorem Filled.consume {available : List UInt8} {later : List (List UInt8)} (h : Filled later)
    (n : ℕ) : Filled (consume available later n) := by
  unfold Lines.consume
  split
  · exact h
  · next hne => exact List.forall_mem_cons.mpr ⟨hne, h⟩

theorem split_of_findIdx? {available : List UInt8} {n : ℕ}
    (h : available.findIdx? (· = 10) = some n) :
    10 ∉ available.take n ∧ available = available.take n ++ 10 :: available.drop (n + 1) ∧
      (available.take n).length = n := by
  obtain ⟨hlt, hten, hbefore⟩ := List.findIdx?_eq_some_iff_getElem.mp h
  have hget : available[n] = 10 := by simpa using hten
  refine ⟨fun hmem => ?_, ?_, List.length_take_of_le hlt.le⟩
  · obtain ⟨j, hj, heq⟩ := List.getElem_of_mem hmem
    rw [List.length_take] at hj
    rw [List.getElem_take] at heq
    exact hbefore j (by omega) (by simpa using heq)
  · rw [← hget, List.cons_getElem_drop_succ, List.take_append_drop]

theorem split_of_notMem {available text rest later : List UInt8} (h : 10 ∉ available)
    (heq : available ++ later = text ++ 10 :: rest) :
    ∃ text', text = available ++ text' ∧ later = text' ++ 10 :: rest := by
  rcases List.append_eq_append_iff.mp heq with ⟨text', htext, hlater⟩ | ⟨more, havailable, hmore⟩
  · exact ⟨text', htext, hlater⟩
  · cases more with
    | nil => exact ⟨[], by simpa using havailable.symm, by simpa using hmore.symm⟩
    | cons c more =>
      cases hmore
      exact absurd (havailable ▸ List.mem_append_right _ List.mem_cons_self) h

theorem first_unique {text rest text' rest' : List UInt8} (h : 10 ∉ text) (h' : 10 ∉ text')
    (heq : text ++ 10 :: rest = text' ++ 10 :: rest') : text = text' ∧ rest = rest' := by
  obtain ⟨more, rfl, hmore⟩ := split_of_notMem h heq
  cases more with
  | nil => exact ⟨(List.append_nil text).symm, (List.cons.inj hmore).2⟩
  | cons c more =>
    cases hmore
    exact absurd (List.mem_append_right _ List.mem_cons_self) h'

theorem readLine_line {limit : ℕ} {chunks : List (List UInt8)} {line text rest : List UInt8}
    (hfilled : Filled chunks) (hflat : chunks.flatten = text ++ 10 :: rest) (htext : 10 ∉ text)
    (hsize : line.length + text.length + 1 ≤ limit) :
    ∃ left, readLine limit line chunks = (.line (line ++ text ++ [10]), left) ∧
      left.flatten = rest ∧ Filled left := by
  induction chunks generalizing line text with
  | nil => simp at hflat
  | cons available later ih =>
    have hne : available ≠ [] := hfilled available List.mem_cons_self
    have hlater : Filled later := fun c hc => hfilled c (List.mem_cons_of_mem _ hc)
    rw [List.flatten_cons] at hflat
    rw [readLine, if_neg hne]
    cases hfind : available.findIdx? (· = 10) with
    | some n =>
      obtain ⟨hbefore, hsplit, hlength⟩ := split_of_findIdx? hfind
      rw [hsplit, List.append_assoc, List.cons_append] at hflat
      obtain ⟨rfl, hrest⟩ := first_unique htext hbefore hflat.symm
      have htake : available.take (n + 1) = available.take n ++ [10] := by
        conv_lhs => rw [hsplit]
        rw [List.take_append, hlength]
        simp [hlength]
      refine ⟨consume available later (n + 1), ?_, ?_, hlater.consume (n + 1)⟩
      · simp only
        rw [if_neg (by omega), htake, List.append_assoc]
      · rw [flatten_consume, hrest]
    | none =>
      have hnone : 10 ∉ available := fun hmem => by
        simpa using List.findIdx?_eq_none_iff.mp hfind 10 hmem
      obtain ⟨text', rfl, hflat'⟩ := split_of_notMem hnone hflat
      rw [List.length_append] at hsize
      have hlong : ¬ limit < line.length + available.length := by omega
      have hsize' : (line ++ available).length + text'.length + 1 ≤ limit := by
        rw [List.length_append]
        omega
      obtain ⟨left, hread, hleft, hfilled'⟩ := ih hlater hflat'
        (fun hmem => htext (List.mem_append_right _ hmem)) hsize'
      refine ⟨left, ?_, hleft, hfilled'⟩
      simp only
      rw [if_neg hlong, hread, List.append_assoc, List.append_assoc, List.append_assoc,
        List.append_assoc]

end Lines
