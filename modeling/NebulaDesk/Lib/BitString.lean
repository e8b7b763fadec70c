/-
Bit strings, most significant bit first.

`ofNat n v` is `v` in `n` bits and `value` reads them back (`value_ofNat`); `pack` puts eight
bits into each byte (`ofBytes_pack`).  `ue` and `se` are the Exp-Golomb codes of a number and
of an integer.  For commands that read from the front of a bit string, `Reads` and `Refuses`
say what they do there; there is a rule for each way to build such a command.
-/
import NebulaDesk.Lib.Command

namespace BitString

/-- The number a bit string spells. -/
def value : List Bool → ℕ
  | [] => 0
  | b :: bits => b.toNat * 2 ^ bits.length + value bits

/-- The low `n` bits of a number. -/
def ofNat : ℕ → ℕ → List Bool
  | 0, _ => []
  | n + 1, v => v.testBit n :: ofNat n v

@[simp] theorem length_ofNat (n v : ℕ) : (ofNat n v).length = n := by
  induction n with
  | zero => rfl
  | succ n ih => rw [ofNat, List.length_cons, ih]

theorem value_ofNat (n v : ℕ) : value (ofNat n v) = v % 2 ^ n := by
  induction n with
  | zero => rw [ofNat, value, pow_zero, Nat.mod_one]
  | succ n ih =>
    rw [ofNat, value, length_ofNat, ih, Nat.mod_pow_succ, Nat.testBit_eq_decide_div_mod_eq]
    rcases Nat.mod_two_eq_zero_or_one (v / 2 ^ n) with h | h <;> simp [h, Nat.add_comm]

theorem value_lt (bits : List Bool) : value bits < 2 ^ bits.length := by
  induction bits with
  | nil => exact Nat.one_pos
  | cons b bits ih =>
    have hb : b.toNat ≤ 1 := Bool.toNat_le b
    have hmul : b.toNat * 2 ^ bits.length ≤ 1 * 2 ^ bits.length := Nat.mul_le_mul_right _ hb
    rw [value, List.length_cons, pow_succ]
    omega

/-! ### Bytes -/

def ofByte (b : UInt8) : List Bool := ofNat 8 b.toNat

def ofBytes (bytes : List UInt8) : List Bool := bytes.flatMap ofByte

@[simp] theorem length_ofBytes (bytes : List UInt8) :
    (ofBytes bytes).length = 8 * bytes.length := by
  induction bytes with
  | nil => rfl
  | cons b bytes ih =>
    rw [ofBytes, List.flatMap_cons, List.length_append, ← ofBytes, ih, ofByte, length_ofNat,
      List.length_cons]
    omega

theorem getElem?_ofNat {n j : ℕ} (v : ℕ) (h : j < n) :
    (ofNat n v)[j]? = some (v.testBit (n - 1 - j)) := by
  induction n generalizing j with
  | zero => omega
  | succ n ih =>
    cases j with
    | zero => rfl
    | succ j =>
      have hsub : n + 1 - 1 - (j + 1) = n - 1 - j := by omega
      rw [ofNat, List.getElem?_cons_succ, ih (by omega), hsub]

theorem getElem?_ofBytes (bytes : List UInt8) (p : ℕ) :
    (ofBytes bytes)[p]? = bytes[p / 8]?.map fun byte => byte.toNat.testBit (7 - p % 8) := by
  induction bytes generalizing p with
  | nil => rfl
  | cons b bytes ih =>
    have hcons : ofBytes (b :: bytes) = ofByte b ++ ofBytes bytes := List.flatMap_cons
    have hlen : (ofByte b).length = 8 := length_ofNat 8 _
    rw [hcons]
    by_cases hp : p < 8
    · have hdiv : p / 8 = 0 := by omega
      have hmod : p % 8 = p := by omega
      rw [List.getElem?_append_left (by omega), ofByte, getElem?_ofNat _ hp, hdiv, hmod]
      rfl
    · have hdiv : p / 8 = (p - 8) / 8 + 1 := by omega
      have hmod : (p - 8) % 8 = p % 8 := by omega
      rw [List.getElem?_append_right (by omega), hlen, ih, hdiv, hmod]
      rfl

/-- The bytes of a bit string, eight bits each. -/
def pack : List Bool → List UInt8
  | a :: b :: c :: d :: e :: f :: g :: h :: rest =>
    UInt8.ofNat (value [a, b, c, d, e, f, g, h]) :: pack rest
  | _ => []

theorem ofByte_value (a b c d e f g h : Bool) :
    ofByte (UInt8.ofNat (value [a, b, c, d, e, f, g, h])) = [a, b, c, d, e, f, g, h] := by
  cases a <;> cases b <;> cases c <;> cases d <;> cases e <;> cases f <;> cases g <;> cases h <;>
    rfl

theorem ofBytes_pack {bits : List Bool} (h : bits.length % 8 = 0) : ofBytes (pack bits) = bits := by
  induction bits using pack.induct with
  | case1 a b c d e f g h' rest ih =>
    have hrest : rest.length % 8 = 0 := by
      simp only [List.length_cons] at h
      omega
    rw [pack, ofBytes, List.flatMap_cons, ofByte_value, ← ofBytes, ih hrest]
    rfl
  | case2 bits hshort =>
    match bits with
    | [] => rfl
    | [_] | [_, _] | [_, _, _] | [_, _, _, _] | [_, _, _, _, _] | [_, _, _, _, _, _]
    | [_, _, _, _, _, _, _] => simp at h
    | a :: b :: c :: d :: e :: f :: g :: h' :: rest =>
      exact absurd rfl (hshort a b c d e f g h' rest)

/-! ### Exp-Golomb codes -/

/-- As many zeros as the number has bits after its first, and then the number, one more. -/
def ue (k : ℕ) : List Bool :=
  List.replicate (k + 1).log2 false ++ true :: ofNat (k + 1).log2 (k + 1)

/-- The positive integers have the odd codes. -/
def se (v : ℤ) : List Bool := ue (if 0 < v then 2 * v.natAbs - 1 else 2 * v.natAbs)

theorem two_pow_sub_one_add_value (k : ℕ) :
    2 ^ (k + 1).log2 - 1 + value (ofNat (k + 1).log2 (k + 1)) = k := by
  have hpos : 0 < 2 ^ (k + 1).log2 := Nat.two_pow_pos _
  have hle : 2 ^ (k + 1).log2 ≤ k + 1 := Nat.log2_self_le (Nat.succ_ne_zero k)
  have hlt : k + 1 < 2 ^ ((k + 1).log2 + 1) := Nat.lt_log2_self
  rw [pow_succ] at hlt
  have hmod : (k + 1) % 2 ^ (k + 1).log2 = k + 1 - 2 ^ (k + 1).log2 := by
    rw [Nat.mod_eq_sub_mod hle, Nat.mod_eq_of_lt (by omega)]
  rw [value_ofNat, hmod]
  omega

/-! ### Commands that read bits -/

section Reading

variable {σ ε α β : Type} {rest : σ → Option (List Bool)}

/-- In front of `bits` the command takes them and gives `a`. -/
def Reads (rest : σ → Option (List Bool)) (m : Cmd σ ε α) (bits : List Bool) (a : α) : Prop :=
  ∀ s tail, rest s = some (bits ++ tail) → ∃ s', m s = (.ok a, s') ∧ rest s' = some tail

/-- In front of `bits` the command fails with `e`. -/
def Refuses (rest : σ → Option (List Bool)) (e : ε) (m : Cmd σ ε α) (bits : List Bool) : Prop :=
  ∀ s tail, rest s = some (bits ++ tail) → ∃ s', m s = (.error e, s')

variable {m : Cmd σ ε α} {f : α → Cmd σ ε β} {a : α} {b : β} {u v : List Bool} {e : ε}

theorem Reads.pure (a : α) : Reads rest (Pure.pure a : Cmd σ ε α) [] a :=
  fun s _ h => ⟨s, rfl, h⟩

/-- **Sequencing**: the second command reads what the first has left. -/
theorem Reads.bind (hm : Reads rest m u a) (hf : Reads rest (f a) v b) :
    Reads rest (m >>= f) (u ++ v) b := by
  intro s tail h
  rw [List.append_assoc] at h
  obtain ⟨s', hrun, hrest⟩ := hm s _ h
  rw [Cmd.bind_ok hrun]
  exact hf s' tail hrest

theorem Reads.bind_nil (hm : Reads rest m [] a) (hf : Reads rest (f a) v b) :
    Reads rest (m >>= f) v b := hm.bind hf

theorem Reads.bind_last (hm : Reads rest m u a) (hf : Reads rest (f a) [] b) :
    Reads rest (m >>= f) u b := by
  have h := hm.bind hf
  rwa [List.append_nil] at h

theorem Reads.bind_refuses (hm : Reads rest m u a) (hf : Refuses rest e (f a) v) :
    Refuses rest e (m >>= f) (u ++ v) := by
  intro s tail h
  rw [List.append_assoc] at h
  obtain ⟨s', hrun, hrest⟩ := hm s _ h
  rw [Cmd.bind_ok hrun]
  exact hf s' tail hrest

theorem Refuses.bind (hm : Refuses rest e m u) (v : List Bool) :
    Refuses rest e (m >>= f) (u ++ v) := by
  intro s tail h
  rw [List.append_assoc] at h
  obtain ⟨s', hrun⟩ := hm s _ h
  exact ⟨s', Cmd.bind_error hrun⟩

/-- What a command makes of `bits`. -/
def Spells (rest : σ → Option (List Bool)) (m : Cmd σ ε α) (bits : List Bool) :
    Except ε α → Prop
  | .ok a => Reads rest m bits a
  | .error e => Refuses rest e m bits

theorem Reads.bind_spells {r : Except ε β} (hm : Reads rest m u a)
    (hf : Spells rest (f a) v r) : Spells rest (m >>= f) (u ++ v) r := by
  cases r with
  | ok b => exact hm.bind hf
  | error e => exact hm.bind_refuses hf

end Reading

end BitString
