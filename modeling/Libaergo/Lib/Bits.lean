import Libaergo.Lib.Bytes

/-!
# Bit strings

A bit string is a list of booleans, most significant first: `bits n v` are the `n` low bits of the number `v`, and
`number` reads them back.  `bitText` writes a byte string as the bits of its bytes.
-/

namespace Libaergo.Lib

/-- The `n` low bits of `v`, most significant first. -/
def bits : ℕ → ℕ → List Bool
  | 0, _ => []
  | n + 1, v => bits n (v / 2) ++ [decide (v % 2 = 1)]

/-- The number whose bits, most significant first, are given. -/
def number (bs : List Bool) : ℕ := bs.foldl (fun n b => 2 * n + b.toNat) 0

def bitText (bs : Bytes) : List Bool := bs.flatMap fun b => bits 8 b.toNat

section Bits

variable {m n v : ℕ} {as bs : List Bool}

@[simp] lemma bits_length (n v : ℕ) : (bits n v).length = n := by
  induction n generalizing v with
  | zero => rfl
  | succ n ih => rw [bits, List.length_append, ih, List.length_singleton]

lemma bits_add (m n v : ℕ) : bits (m + n) v = bits m (v / 2 ^ n) ++ bits n v := by
  induction n generalizing v with
  | zero => simp [bits]
  | succ n ih => rw [← Nat.add_assoc, bits, ih, bits, Nat.div_div_eq_div_mul, ← Nat.pow_succ', List.append_assoc]

lemma bits_mod (h : m ≤ n) (v : ℕ) : bits m (v % 2 ^ n) = bits m v := by
  induction m generalizing n v with
  | zero => rfl
  | succ m ih =>
    obtain ⟨n, rfl⟩ := Nat.exists_eq_add_of_le' h
    have hhalf : v % 2 ^ (n + (m + 1)) / 2 = v / 2 % 2 ^ (n + m) := by
      rw [← Nat.add_assoc, Nat.pow_succ, Nat.mul_comm, Nat.mod_mul_right_div_self]
    have hbit : v % 2 ^ (n + (m + 1)) % 2 = v % 2 := Nat.mod_mod_of_dvd v ⟨2 ^ (n + m), by ring⟩
    rw [bits, bits, hhalf, ih (Nat.le_add_left m n), hbit]

lemma number_append (as bs : List Bool) : number (as ++ bs) = number as * 2 ^ bs.length + number bs := by
  have hfrom : ∀ (bs : List Bool) (k : ℕ),
      bs.foldl (fun n b => 2 * n + b.toNat) k = k * 2 ^ bs.length + number bs := by
    intro bs
    induction bs with
    | nil => simp [number]
    | cons b bs ih =>
      intro k
      rw [number, List.foldl_cons, List.foldl_cons, ih, ih, List.length_cons, Nat.pow_succ]
      ring
  rw [number, List.foldl_append, hfrom]
  rfl

lemma number_bits (n v : ℕ) : number (bits n v) = v % 2 ^ n := by
  induction n generalizing v with
  | zero => simp [bits, number, Nat.mod_one]
  | succ n ih =>
    have hbit : number [decide (v % 2 = 1)] = v % 2 := by
      rcases Nat.mod_two_eq_zero_or_one v with h | h <;> simp [number, h]
    have hmod : v % 2 ^ (n + 1) = v % 2 + 2 * (v / 2 % 2 ^ n) := by rw [Nat.pow_succ', Nat.mod_mul]
    rw [bits, number_append, ih, hbit, List.length_singleton, hmod]
    ring

end Bits

/-! ### The bits of bytes -/

section Text

variable {as bs : Bytes}

@[simp] lemma bitText_nil : bitText [] = [] := rfl

@[simp] lemma bitText_append (as bs : Bytes) : bitText (as ++ bs) = bitText as ++ bitText bs := List.flatMap_append

@[simp] lemma bitText_length (bs : Bytes) : (bitText bs).length = 8 * bs.length := by
  induction bs with
  | nil => rfl
  | cons b bs ih =>
    rw [bitText, List.flatMap_cons, List.length_append, bits_length, List.length_cons]
    have htail : (bs.flatMap fun b => bits 8 b.toNat).length = 8 * bs.length := ih
    omega

lemma number_bitText (bs : Bytes) : number (bitText bs) = beNat bs := by
  induction bs with
  | nil => rfl
  | cons b bs ih =>
    have hbyte := b.toNat_lt
    have hcons : bitText (b :: bs) = bits 8 b.toNat ++ bitText bs := rfl
    rw [hcons, number_append, number_bits, ih, beNat_cons, bitText_length, Nat.mod_eq_of_lt hbyte, Nat.pow_mul]

lemma bitText_beBytes (k v : ℕ) : bitText (beBytes k v) = bits (8 * k) v := by
  induction k generalizing v with
  | zero => rfl
  | succ k ih =>
    have hlast : beBytes (k + 1) v = beBytes k (v / 256) ++ [UInt8.ofNat v] := List.reverse_cons
    have hbyte : bitText [UInt8.ofNat v] = bits 8 v := by
      have hmod : (UInt8.ofNat v).toNat = v % 2 ^ 8 := by simp
      rw [bitText, List.flatMap_singleton, hmod, bits_mod le_rfl]
    rw [hlast, bitText_append, ih, hbyte, Nat.mul_succ]
    exact (bits_add (8 * k) 8 v).symm

lemma bitText_replicate_zero (k : ℕ) : bitText (List.replicate k 0) = List.replicate (8 * k) false := by
  induction k with
  | zero => rfl
  | succ k ih =>
    have hcons : bitText (0 :: List.replicate k 0) = List.replicate 8 false ++ bitText (List.replicate k 0) := rfl
    rw [List.replicate_succ, hcons, ih, ← List.replicate_add]
    congr 1
    ring

lemma bitText_drop (k : ℕ) (bs : Bytes) : bitText (bs.drop k) = (bitText bs).drop (8 * k) := by
  induction k generalizing bs with
  | zero => rfl
  | succ k ih =>
    cases bs with
    | nil => simp
    | cons b bs =>
      have hcons : bitText (b :: bs) = bits 8 b.toNat ++ bitText bs := rfl
      have hmul : 8 * (k + 1) = (bits 8 b.toNat).length + 8 * k := by
        rw [bits_length]
        ring
      rw [List.drop_succ_cons, ih, hcons, hmul, List.drop_length_add_append]

lemma bitText_take (k : ℕ) (bs : Bytes) : bitText (bs.take k) = (bitText bs).take (8 * k) := by
  induction k generalizing bs with
  | zero => rfl
  | succ k ih =>
    cases bs with
    | nil => simp
    | cons b bs =>
      have hcons : ∀ bs, bitText (b :: bs) = bits 8 b.toNat ++ bitText bs := fun _ => rfl
      have hmul : 8 * (k + 1) = (bits 8 b.toNat).length + 8 * k := by
        rw [bits_length]
        ring
      rw [List.take_succ_cons, hcons, ih, hcons, hmul, List.take_length_add_append]

end Text

end Libaergo.Lib
