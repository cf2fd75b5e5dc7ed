/-
Numbers as bytes, and both in hexadecimal.

`bytes` lists a number's lowest bytes, the lowest first, and `ofBytes` puts
them together again; a part of them says what the number is modulo a power of
256 (`bytes_eq_iff`). `readNat` and `readBytes` read what is printed with the
digits of `Nat.digitChar`.
-/
import Mathlib.Algebra.Group.Nat.Defs
import Mathlib.Data.List.Basic

namespace Bytes

/-! ## Little-endian bytes -/

/-- The `k` lowest bytes of a number. -/
def bytes : Nat → Nat → List UInt8
  | 0, _ => []
  | k + 1, n => UInt8.ofNat n :: bytes k (n / 256)

def ofBytes : List UInt8 → Nat
  | [] => 0
  | b :: bs => b.toNat + 256 * ofBytes bs

@[simp] theorem length_bytes (k n : Nat) : (bytes k n).length = k := by
  induction k generalizing n with
  | zero => rfl
  | succ k ih => simp [bytes, ih]

theorem ofBytes_bytes (k n : Nat) : ofBytes (bytes k n) = n % 256 ^ k := by
  induction k generalizing n with
  | zero => simp [bytes, ofBytes, Nat.mod_one]
  | succ k ih =>
    have hbyte : (UInt8.ofNat n).toNat = n % 256 := by simp
    rw [bytes, ofBytes, ih, hbyte, Nat.pow_succ, Nat.mul_comm (256 ^ k) 256, Nat.mod_mul]

theorem take_bytes {j k : Nat} (h : j ≤ k) (n : Nat) : (bytes k n).take j = bytes j n := by
  induction j generalizing k n with
  | zero => rfl
  | succ j ih =>
    obtain ⟨k, rfl⟩ : ∃ k', k = k' + 1 := ⟨k - 1, by omega⟩
    rw [bytes, bytes, List.take_succ_cons, ih (by omega)]

theorem bytes_mod (k n : Nat) : bytes k (n % 256 ^ k) = bytes k n := by
  induction k generalizing n with
  | zero => rfl
  | succ k ih =>
    have hbyte : UInt8.ofNat (n % 256 ^ (k + 1)) = UInt8.ofNat n := by
      apply UInt8.toNat.inj
      simp only [UInt8.toNat_ofNat']
      exact Nat.mod_mod_of_dvd n ⟨256 ^ k, by rw [Nat.pow_succ, Nat.mul_comm]⟩
    have hdiv : n % 256 ^ (k + 1) / 256 = n / 256 % 256 ^ k := by
      rw [Nat.pow_succ, Nat.mul_comm (256 ^ k) 256, Nat.mod_mul_right_div_self]
    rw [bytes, bytes, hbyte, hdiv, ih]

/-- The lowest bytes are what is left modulo a power of 256. -/
theorem bytes_eq_iff {k n m : Nat} : bytes k n = bytes k m ↔ n % 256 ^ k = m % 256 ^ k := by
  constructor
  · intro h
    rw [← ofBytes_bytes, ← ofBytes_bytes, h]
  · intro h
    rw [← bytes_mod k n, ← bytes_mod k m, h]

/-! ## Hexadecimal digits -/

/-- The value of a lower-case digit. -/
def readDigit (c : Char) : Option Nat :=
  if c.isDigit then some (c.toNat - '0'.toNat)
  else if 'a' ≤ c ∧ c ≤ 'f' then some (c.toNat - 'a'.toNat + 10)
  else none

theorem readDigit_digitChar : ∀ n, n < 16 → readDigit n.digitChar = some n
  | 0, _ | 1, _ | 2, _ | 3, _ | 4, _ | 5, _ | 6, _ | 7, _ | 8, _ | 9, _ | 10, _ | 11, _ | 12, _
  | 13, _ | 14, _ | 15, _ => by decide
  | n + 16, h => absurd h (by omega)

/-- A number, its highest digit first. -/
def readNat (cs : List Char) : Option Nat := cs.foldlM (fun n c => (readDigit c).map (16 * n + ·)) 0

theorem readNat_concat {cs : List Char} {c : Char} :
    readNat (cs ++ [c]) = (readNat cs).bind fun n => (readDigit c).map (16 * n + ·) := by
  simp [readNat, List.foldlM_append]

theorem readNat_toDigits (n : Nat) : readNat (Nat.toDigits 16 n) = some n := by
  induction n using Nat.strongRecOn with
  | ind n ih =>
    by_cases hn : n < 16
    · rw [Nat.toDigits_of_lt_base hn]
      simp [readNat, readDigit_digitChar n hn]
    · have hdigit := readDigit_digitChar (n % 16) (Nat.mod_lt _ (by decide))
      rw [Nat.toDigits_of_base_le (by decide) (by omega), readNat_concat, ih _ (Nat.div_lt_self (by omega) (by decide)),
        Option.bind_some, hdigit, Option.map_some, Nat.div_add_mod]

/-- Bytes, of two digits each. -/
def readBytes : List Char → Option (List UInt8)
  | [] => some []
  | [_] => none
  | c :: d :: cs => do some (UInt8.ofNat (16 * (← readDigit c) + (← readDigit d)) :: (← readBytes cs))

theorem readBytes_flatMap {f : UInt8 → List Char}
    (hf : ∀ b, f b = [(b.toNat / 16).digitChar, (b.toNat % 16).digitChar]) (bs : List UInt8) :
    readBytes (bs.flatMap f) = some bs := by
  induction bs with
  | nil => rfl
  | cons b bs ih =>
    have hhigh := readDigit_digitChar (b.toNat / 16) (by have := b.toNat_lt; omega)
    have hlow := readDigit_digitChar (b.toNat % 16) (Nat.mod_lt _ (by decide))
    have hbyte : UInt8.ofNat (16 * (b.toNat / 16) + b.toNat % 16) = b := by rw [Nat.div_add_mod, UInt8.ofNat_toNat]
    rw [List.flatMap_cons, hf, List.cons_append, List.cons_append, List.nil_append, readBytes, hhigh, hlow, ih]
    simp only [Option.bind_eq_bind, Option.bind_some, hbyte]

end Bytes
