/-
Little-endian byte strings.

`toLeBytes n v` writes the low `n` bytes of `v`, least significant first, and
`fromLeBytes` reads them back:

* `fromLeBytes_toLeBytes` — reading after writing gives `v` modulo `256 ^ n`;
* `toLeBytes_fromLeBytes` — writing after reading gives the same bytes;
* `toLeBytes_inj` — two numbers below `256 ^ n` with the same bytes are equal.
-/
import Mathlib

namespace Bytes

/-- The low `n` bytes of `v`, least significant first. -/
def toLeBytes : ℕ → ℕ → List UInt8
  | 0, _ => []
  | n + 1, v => UInt8.ofNat (v % 256) :: toLeBytes n (v / 256)

/-- The number a little-endian byte string spells. -/
def fromLeBytes : List UInt8 → ℕ
  | [] => 0
  | b :: bs => b.toNat + 256 * fromLeBytes bs

@[simp] theorem length_toLeBytes (n v : ℕ) : (toLeBytes n v).length = n := by
  induction n generalizing v with
  | zero => rfl
  | succ n ih => simp [toLeBytes, ih]

theorem fromLeBytes_toLeBytes (n v : ℕ) : fromLeBytes (toLeBytes n v) = v % 256 ^ n := by
  induction n generalizing v with
  | zero => simp [toLeBytes, fromLeBytes, Nat.mod_one]
  | succ n ih =>
    have hb : (UInt8.ofNat (v % 256)).toNat = v % 256 := by
      simp
    rw [toLeBytes, fromLeBytes, ih, hb, pow_succ', Nat.mod_mul]

theorem fromLeBytes_toLeBytes_of_lt {n v : ℕ} (h : v < 256 ^ n) :
    fromLeBytes (toLeBytes n v) = v := by
  rw [fromLeBytes_toLeBytes, Nat.mod_eq_of_lt h]

theorem fromLeBytes_lt (l : List UInt8) : fromLeBytes l < 256 ^ l.length := by
  induction l with
  | nil => simp [fromLeBytes]
  | cons b bs ih =>
    have hb : b.toNat < 256 := b.toNat_lt
    rw [fromLeBytes, List.length_cons, pow_succ']
    omega

theorem toLeBytes_fromLeBytes (l : List UInt8) : toLeBytes l.length (fromLeBytes l) = l := by
  induction l with
  | nil => rfl
  | cons b bs ih =>
    have hb : b.toNat < 256 := b.toNat_lt
    have hmod : (b.toNat + 256 * fromLeBytes bs) % 256 = b.toNat := by omega
    have hdiv : (b.toNat + 256 * fromLeBytes bs) / 256 = fromLeBytes bs := by omega
    rw [fromLeBytes, List.length_cons, toLeBytes, hmod, hdiv, ih]
    simp

theorem toLeBytes_inj {n v w : ℕ} (hv : v < 256 ^ n) (hw : w < 256 ^ n)
    (h : toLeBytes n v = toLeBytes n w) : v = w := by
  rw [← fromLeBytes_toLeBytes_of_lt hv, h, fromLeBytes_toLeBytes_of_lt hw]

end Bytes
