import Libaergo.Lib.Bytes

/-!
# Base-128 varints

A varint spells a number in groups of seven bits, least significant first; every byte but the last
has its top bit set.  A 64-bit number needs at most ten groups, and a reader takes no more.
-/

namespace Libaergo.Lib

/-- At most `k` groups of the varint of `n`. -/
def varintGroups : ℕ → ℕ → Bytes
  | 0, _ => []
  | k + 1, n =>
    if n < 128 then [UInt8.ofNat n] else UInt8.ofNat (n % 128 + 128) :: varintGroups k (n / 128)

/-- The shortest varint of a 64-bit number. -/
def varint (n : ℕ) : Bytes := varintGroups 10 n

/-- Reads a varint of at most `k` groups; the value and what follows. -/
def readGroups : ℕ → Bytes → Option (ℕ × Bytes)
  | 0, _ => none
  | _ + 1, [] => none
  | k + 1, b :: bs =>
    if b.toNat < 128 then some (b.toNat, bs)
    else (readGroups k bs).map fun p => (b.toNat - 128 + 128 * p.1, p.2)

/-- Reads a varint as a 64-bit number, as every protobuf reader does: ten groups at most, and what
does not fit in 64 bits is dropped. -/
def readVarint (bs : Bytes) : Option (ℕ × Bytes) :=
  (readGroups 10 bs).map fun p => (p.1 % 2 ^ 64, p.2)

/-! ### Lengths -/

lemma varintGroups_length_le (k n : ℕ) : (varintGroups k n).length ≤ k := by
  induction k generalizing n with
  | zero => simp [varintGroups]
  | succ k ih =>
    unfold varintGroups
    split
    · simp
    · simpa using ih (n / 128)

lemma varint_length_le (n : ℕ) : (varint n).length ≤ 10 := varintGroups_length_le 10 n

lemma varint_length_le_of_lt {k n : ℕ} (h : n < 128 ^ (k + 1)) : (varint n).length ≤ k + 1 := by
  have hgroups : ∀ j k n : ℕ, n < 128 ^ (k + 1) → (varintGroups j n).length ≤ k + 1 := by
    intro j
    induction j with
    | zero => exact fun k n _ => Nat.zero_le _
    | succ j ih =>
      intro k n h
      rw [varintGroups]
      split
      · simp
      · next hn =>
        cases k with
        | zero => omega
        | succ k =>
          have hq : n / 128 < 128 ^ (k + 1) := by
            rw [Nat.div_lt_iff_lt_mul (by omega), ← pow_succ]
            exact h
          exact Nat.succ_le_succ (ih k _ hq)
  exact hgroups 10 k n h

lemma varint_of_lt {n : ℕ} (h : n < 128) : varint n = [UInt8.ofNat n] := by
  simp [varint, varintGroups, h]

lemma two_le_varint_length {n : ℕ} (h : 128 ≤ n) : 2 ≤ (varint n).length := by
  have hpos : 0 < (varintGroups 9 (n / 128)).length := by
    unfold varintGroups
    split <;> simp
  rw [varint, varintGroups, if_neg (by omega), List.length_cons]
  omega

lemma varint_length_pos (n : ℕ) : 0 < (varint n).length := by
  unfold varint varintGroups
  split <;> simp

/-! ### Reading back -/

lemma readGroups_varintGroups (k n : ℕ) (rest : Bytes) (h : n < 128 ^ (k + 1)) :
    readGroups (k + 1) (varintGroups (k + 1) n ++ rest) = some (n, rest) := by
  induction k generalizing n with
  | zero =>
    have hn : n < 128 := by simpa using h
    have hb : (UInt8.ofNat n).toNat = n := by simp; omega
    simp [varintGroups, readGroups, hn, hb]
  | succ k ih =>
    rw [varintGroups]
    split
    case isTrue hn =>
      have hb : (UInt8.ofNat n).toNat = n := by simp; omega
      simp [readGroups, hn, hb]
    case isFalse hn =>
      have hq : n / 128 < 128 ^ (k + 1) := by
        rw [Nat.div_lt_iff_lt_mul (by omega), ← pow_succ]
        exact h
      have hb : (UInt8.ofNat (n % 128 + 128)).toNat = n % 128 + 128 := by simp; omega
      rw [List.cons_append, readGroups, hb, if_neg (by omega), ih _ hq]
      simp only [Option.map_some, Option.some.injEq, Prod.mk.injEq, and_true]
      omega

/-- **A varint reads back**, whatever follows it. -/
theorem readVarint_varint {n : ℕ} (rest : Bytes) (h : n < 2 ^ 64) :
    readVarint (varint n ++ rest) = some (n, rest) := by
  have h10 : n < 128 ^ (9 + 1) := by omega
  rw [readVarint, varint, readGroups_varintGroups 9 n rest h10, Option.map_some,
    Nat.mod_eq_of_lt h]

end Libaergo.Lib
