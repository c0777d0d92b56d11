import Mathlib.Data.Nat.Notation
import Mathlib.Data.List.Basic
import Mathlib.Data.Nat.Size
import Mathlib.Tactic.Ring

/-!
# Byte strings and fixed-width numbers

A byte string is a list of bytes.  `leBytes k n` and `beBytes k n` are the `k` low bytes of the
number `n`, least and most significant first; `leNat` and `beNat` read them back.  `beShort n` is the
shortest byte string that spells `n`, most significant byte first.
-/

namespace Libaergo.Lib

abbrev Bytes := List UInt8

/-- The `k` low bytes of `n`, least significant first. -/
def leBytes : ℕ → ℕ → Bytes
  | 0, _ => []
  | k + 1, n => UInt8.ofNat n :: leBytes k (n / 256)

/-- The number whose bytes, least significant first, are given. -/
def leNat : Bytes → ℕ
  | [] => 0
  | b :: bs => b.toNat + 256 * leNat bs

/-- The `k` low bytes of `n`, most significant first. -/
def beBytes (k n : ℕ) : Bytes := (leBytes k n).reverse

/-- The number whose bytes, most significant first, are given. -/
def beNat (bs : Bytes) : ℕ := leNat bs.reverse

/-- The bytes of `n`, most significant first, without leading zeros. -/
def beShort (n : ℕ) : Bytes := beBytes ((n.size + 7) / 8) n

/-! ### Lengths -/

@[simp] lemma leBytes_length (k n : ℕ) : (leBytes k n).length = k := by
  induction k generalizing n with
  | zero => rfl
  | succ k ih => simp [leBytes, ih]

@[simp] lemma beBytes_length (k n : ℕ) : (beBytes k n).length = k := by simp [beBytes]

/-! ### Reading back -/

lemma leNat_leBytes (k n : ℕ) : leNat (leBytes k n) = n % 256 ^ k := by
  induction k generalizing n with
  | zero => simp [leBytes, leNat, Nat.mod_one]
  | succ k ih =>
    have hb : (UInt8.ofNat n).toNat = n % 256 := by simp
    rw [leBytes, leNat, ih, hb, Nat.pow_succ, Nat.mul_comm (256 ^ k) 256, Nat.mod_mul]

lemma beNat_beBytes (k n : ℕ) : beNat (beBytes k n) = n % 256 ^ k := by
  simp [beNat, beBytes, leNat_leBytes]

lemma leBytes_leNat (bs : Bytes) : leBytes bs.length (leNat bs) = bs := by
  induction bs with
  | nil => rfl
  | cons b bs ih =>
    have hb := b.toNat_lt
    have hq : (b.toNat + 256 * leNat bs) / 256 = leNat bs := by omega
    have hr : UInt8.ofNat (b.toNat + 256 * leNat bs) = b := by
      apply UInt8.toNat_inj.mp
      rw [UInt8.toNat_ofNat']
      omega
    rw [List.length_cons, leNat, leBytes, hq, hr, ih]

lemma leNat_lt (bs : Bytes) : leNat bs < 256 ^ bs.length := by
  induction bs with
  | nil => simp [leNat]
  | cons b bs ih =>
    have hb := b.toNat_lt
    rw [leNat, List.length_cons, Nat.pow_succ]
    omega

lemma beNat_lt (bs : Bytes) : beNat bs < 256 ^ bs.length := by
  simpa [beNat] using leNat_lt bs.reverse

/-- Byte strings of one length are told apart by the number they spell. -/
lemma leNat_inj {as bs : Bytes} (hl : as.length = bs.length) (h : leNat as = leNat bs) :
    as = bs := by
  rw [← leBytes_leNat as, ← leBytes_leNat bs, hl, h]

lemma beNat_inj {as bs : Bytes} (hl : as.length = bs.length) (h : beNat as = beNat bs) :
    as = bs :=
  List.reverse_injective (leNat_inj (by simpa using hl) h)

/-! ### Shortest byte strings -/

lemma beNat_cons (b : UInt8) (bs : Bytes) : beNat (b :: bs) = b.toNat * 256 ^ bs.length + beNat bs := by
  have h : ∀ as : Bytes, leNat (as ++ [b]) = leNat as + 256 ^ as.length * b.toNat := by
    intro as
    induction as with
    | nil => simp [leNat]
    | cons a as ih =>
      rw [List.cons_append, leNat, ih, leNat, List.length_cons, Nat.pow_succ]
      ring
  simp only [beNat, List.reverse_cons, h, List.length_reverse]
  ring

lemma beNat_append (as bs : Bytes) : beNat (as ++ bs) = beNat as * 256 ^ bs.length + beNat bs := by
  induction as with
  | nil => simp [beNat, leNat]
  | cons a as ih =>
    rw [List.cons_append, beNat_cons, beNat_cons, ih, List.length_append, pow_add]
    ring

lemma beShort_length (n : ℕ) : (beShort n).length = (n.size + 7) / 8 := beBytes_length ..

lemma beShort_length_le_iff {n k : ℕ} : (beShort n).length ≤ k ↔ n < 256 ^ k := by
  have hpow : 256 ^ k = 2 ^ (8 * k) := by
    rw [Nat.pow_mul]
  rw [beShort_length, hpow, ← Nat.size_le]
  omega

lemma beNat_beShort (n : ℕ) : beNat (beShort n) = n := by
  have hlt : n < 256 ^ (beShort n).length := beShort_length_le_iff.mp le_rfl
  rw [beShort_length] at hlt
  rw [beShort, beNat_beBytes, Nat.mod_eq_of_lt hlt]

lemma beShort_inj {m n : ℕ} (h : beShort m = beShort n) : m = n := by
  rw [← beNat_beShort m, h, beNat_beShort]

/-- A byte string without a zero in front is the shortest of its number. -/
lemma beShort_beNat_cons {b : UInt8} {bs : Bytes} (hb : b ≠ 0) : beShort (beNat (b :: bs)) = b :: bs := by
  have hpos : 1 ≤ b.toNat := by
    rw [Nat.one_le_iff_ne_zero]
    exact fun h => hb (UInt8.toNat_inj.mp h)
  refine beNat_inj (Nat.le_antisymm ?_ ?_) (beNat_beShort _)
  · exact beShort_length_le_iff.mpr (beNat_lt _)
  · by_contra hlt
    rw [not_le, List.length_cons, Nat.lt_succ_iff, beShort_length_le_iff, beNat_cons] at hlt
    have hle : 1 * 256 ^ bs.length ≤ b.toNat * 256 ^ bs.length := Nat.mul_le_mul_right _ hpos
    omega

lemma dropWhile_eq_beShort (bs : Bytes) : bs.dropWhile (· = 0) = beShort (beNat bs) := by
  induction bs with
  | nil => rfl
  | cons b bs ih =>
    by_cases hb : b = 0
    · have hzero : UInt8.toNat 0 = 0 := rfl
      rw [List.dropWhile_cons_of_pos (by simpa using hb), ih, hb, beNat_cons, hzero, Nat.zero_mul, Nat.zero_add]
    · rw [List.dropWhile_cons_of_neg (by simpa using hb), beShort_beNat_cons hb]

/-! ### Where a byte is -/

lemma idxOf?_append_cons {as : Bytes} {c : UInt8} (bs : Bytes) (h : c ∉ as) :
    (as ++ c :: bs).idxOf? c = some as.length := by
  rw [List.idxOf?_eq_some_iff]
  refine ⟨?_, ?_, ?_⟩
  · rw [List.length_append, List.length_cons]
    omega
  · rw [List.getElem_append_right le_rfl]
    simp
  · intro i hi heq
    rw [List.getElem_append_left hi] at heq
    exact h (heq ▸ List.getElem_mem _)

end Libaergo.Lib
