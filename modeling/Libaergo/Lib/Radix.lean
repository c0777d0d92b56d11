import Libaergo.Lib.Bytes
import Mathlib.Data.Nat.Digits.Defs

/-!
# Numerals

A numeral is a list of digits, the first of which counts most: `radixNat b ds` is the number that it
denotes in base `b`, the number that Mathlib's `Nat.ofDigits` gives the reversed list.  Numerals of one
length are told apart by their numbers, and a numeral that does not start with zero has the length that
its number needs (`radixNat_length_le_iff`).
-/

namespace Libaergo.Lib

/-- The number that digits denote, the first counting most. -/
def radixNat (b : ℕ) (ds : List ℕ) : ℕ := Nat.ofDigits b ds.reverse

section Radix

variable {b : ℕ} {ds es : List ℕ}

@[simp] lemma radixNat_nil (b : ℕ) : radixNat b [] = 0 := rfl

lemma radixNat_append (b : ℕ) (ds es : List ℕ) :
    radixNat b (ds ++ es) = radixNat b ds * b ^ es.length + radixNat b es := by
  unfold radixNat
  rw [List.reverse_append, Nat.ofDigits_append, List.length_reverse]
  ring

@[simp] lemma radixNat_singleton (b d : ℕ) : radixNat b [d] = d := Nat.ofDigits_singleton

lemma radixNat_cons (b d : ℕ) (ds : List ℕ) :
    radixNat b (d :: ds) = d * b ^ ds.length + radixNat b ds := by
  have h := radixNat_append b [d] ds
  rwa [radixNat_singleton] at h

lemma radixNat_lt (hb : 1 < b) (h : ∀ d ∈ ds, d < b) : radixNat b ds < b ^ ds.length := by
  have hlt := Nat.ofDigits_lt_base_pow_length (l := ds.reverse) hb fun d hd => h d (List.mem_reverse.mp hd)
  rwa [List.length_reverse] at hlt

lemma radixNat_inj (hb : 1 < b) (hlen : ds.length = es.length) (hds : ∀ d ∈ ds, d < b)
    (hes : ∀ d ∈ es, d < b) (h : radixNat b ds = radixNat b es) : ds = es := by
  refine List.reverse_injective (Nat.ofDigits_inj_of_len_eq hb ?_ ?_ ?_ h)
  · rw [List.length_reverse, List.length_reverse, hlen]
  · exact fun d hd => hds d (List.mem_reverse.mp hd)
  · exact fun d hd => hes d (List.mem_reverse.mp hd)

/-- A numeral with a first digit that counts is as long as its number needs. -/
lemma radixNat_length_le_iff (hb : 1 < b) (h : ∀ d ∈ ds, d < b) (hhead : ds.head? ≠ some 0) {k : ℕ} :
    ds.length ≤ k ↔ radixNat b ds < b ^ k := by
  constructor
  · intro hk
    exact (radixNat_lt hb h).trans_le (Nat.pow_le_pow_right (by omega) hk)
  · intro hlt
    cases ds with
    | nil => exact Nat.zero_le k
    | cons d ds =>
      by_contra hk
      rw [List.length_cons] at hk
      have hd : 1 ≤ d := by
        by_contra h0
        exact hhead (by rw [List.head?_cons, show d = 0 by omega])
      have hpow : b ^ k ≤ b ^ ds.length := Nat.pow_le_pow_right (by omega) (by omega)
      have hle : 1 * b ^ ds.length ≤ d * b ^ ds.length := Nat.mul_le_mul_right _ hd
      rw [radixNat_cons] at hlt
      omega

lemma radixNat_dropWhile (b : ℕ) (ds : List ℕ) : radixNat b (ds.dropWhile (· = 0)) = radixNat b ds := by
  induction ds with
  | nil => rfl
  | cons d ds ih =>
    by_cases hd : d = 0
    · rw [List.dropWhile_cons_of_pos (by simpa using hd), ih, radixNat_cons, hd, Nat.zero_mul, Nat.zero_add]
    · rw [List.dropWhile_cons_of_neg (by simpa using hd)]

lemma head?_dropWhile_ne_zero (ds : List ℕ) : (ds.dropWhile (· = 0)).head? ≠ some 0 := by
  induction ds with
  | nil => simp
  | cons d ds ih =>
    by_cases hd : d = 0
    · rwa [List.dropWhile_cons_of_pos (by simpa using hd)]
    · rw [List.dropWhile_cons_of_neg (by simpa using hd), List.head?_cons]
      exact fun h => hd (Option.some.inj h)

end Radix

end Libaergo.Lib
