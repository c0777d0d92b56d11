import Libaergo.Lib.Bytes
import Mathlib.Data.Rat.Floor
import Mathlib.Tactic.FieldSimp

/-!
# Decimal texts

ASCII digits and the numbers they denote: `decNat` reads a text of digits, `decText` writes a number
without leading zeros, and `decimalValue` is the number that digits before and behind a point denote.
Cut after its `k`-th decimal it is read from the digits before the point and `k` behind it, zeros put in
where there are fewer (`floor_decimalValue`).
-/

namespace Libaergo.Lib

def IsDigit (c : UInt8) : Prop := 0x30 ≤ c ∧ c ≤ 0x39

instance : DecidablePred IsDigit := fun c => inferInstanceAs (Decidable (0x30 ≤ c ∧ c ≤ 0x39))

/-- The number that a text of digits denotes. -/
def decNat (ds : Bytes) : ℕ := ds.foldl (fun n c => 10 * n + (c.toNat - 0x30)) 0

def decText (n : ℕ) : Bytes := (Nat.toDigits 10 n).map fun c => UInt8.ofNat c.toNat

/-- The number that digits before and behind a point denote. -/
def decimalValue (integer decimals : Bytes) : ℚ := decNat integer + decNat decimals / 10 ^ decimals.length

/-- The text has digits, a point and digits, and denotes the number. -/
def Denotes (text : Bytes) (q : ℚ) : Prop :=
  ∃ integer decimals, text = integer ++ 0x2e :: decimals ∧ integer ≠ [] ∧ decimals ≠ [] ∧
    (∀ c ∈ integer, IsDigit c) ∧ (∀ c ∈ decimals, IsDigit c) ∧ q = decimalValue integer decimals

/-! ### Reading digits -/

lemma isDigit_iff {c : UInt8} : IsDigit c ↔ 0x30 ≤ c.toNat ∧ c.toNat ≤ 0x39 := by
  unfold IsDigit
  rw [UInt8.le_iff_toNat_le, UInt8.le_iff_toNat_le]
  rfl

lemma isDigit_zero : IsDigit 0x30 := by decide

@[simp] lemma decNat_nil : decNat [] = 0 := rfl

lemma foldl_decNat (ds : Bytes) (n : ℕ) :
    ds.foldl (fun n c => 10 * n + (c.toNat - 0x30)) n = n * 10 ^ ds.length + decNat ds := by
  unfold decNat
  induction ds generalizing n with
  | nil => simp
  | cons c ds ih =>
    rw [List.foldl_cons, List.foldl_cons, ih, ih (10 * 0 + (c.toNat - 0x30)), List.length_cons,
      Nat.pow_succ]
    ring

lemma decNat_append (as bs : Bytes) : decNat (as ++ bs) = decNat as * 10 ^ bs.length + decNat bs := by
  rw [← foldl_decNat]
  unfold decNat
  rw [List.foldl_append]

lemma decNat_cons (c : UInt8) (ds : Bytes) :
    decNat (c :: ds) = (c.toNat - 0x30) * 10 ^ ds.length + decNat ds := by
  have h := decNat_append [c] ds
  simpa [decNat] using h

lemma decNat_lt {ds : Bytes} (h : ∀ c ∈ ds, IsDigit c) : decNat ds < 10 ^ ds.length := by
  induction ds with
  | nil => simp
  | cons c ds ih =>
    have hc := isDigit_iff.mp (h c List.mem_cons_self)
    have hds := ih fun x hx => h x (List.mem_cons_of_mem c hx)
    have hle : (c.toNat - 0x30) * 10 ^ ds.length ≤ 9 * 10 ^ ds.length :=
      Nat.mul_le_mul_right _ (by omega)
    rw [decNat_cons, List.length_cons, Nat.pow_succ]
    omega

@[simp] lemma decNat_zeros (k : ℕ) : decNat (List.replicate k 0x30) = 0 := by
  induction k with
  | zero => rfl
  | succ k ih =>
    have hzero : UInt8.toNat 0x30 - 0x30 = 0 := rfl
    rw [List.replicate_succ, decNat_cons, ih, hzero, Nat.zero_mul]

/-! ### Writing digits -/

lemma isDigit_decText {n : ℕ} {c : UInt8} (h : c ∈ decText n) : IsDigit c := by
  obtain ⟨d, hd, rfl⟩ := List.mem_map.mp h
  have hdig := Nat.isDigit_of_mem_toDigits (by decide) (by decide) hd
  rw [Char.isDigit, Bool.and_eq_true, decide_eq_true_eq, decide_eq_true_eq] at hdig
  have hlo : 0x30 ≤ d.toNat := hdig.1
  have hhi : d.toNat ≤ 0x39 := hdig.2
  rw [isDigit_iff, UInt8.toNat_ofNat']
  omega

@[simp] lemma decNat_decText (n : ℕ) : decNat (decText n) = n := by
  have hmap : ∀ (cs : List Char) (m : ℕ), (∀ c ∈ cs, c.toNat < 256) →
      (cs.map fun c => UInt8.ofNat c.toNat).foldl (fun n c => 10 * n + (c.toNat - 0x30)) m =
        Nat.ofDigitChars 10 cs m := by
    intro cs m hcs
    induction cs generalizing m with
    | nil => simp
    | cons c cs ih =>
      have hc := hcs c List.mem_cons_self
      rw [List.map_cons, List.foldl_cons, Nat.ofDigitChars_cons, UInt8.toNat_ofNat', Nat.mod_eq_of_lt hc]
      exact ih _ fun x hx => hcs x (List.mem_cons_of_mem c hx)
  have hsmall : ∀ c ∈ Nat.toDigits 10 n, c.toNat < 256 := by
    intro c hc
    have hdig := Nat.isDigit_of_mem_toDigits (by decide) (by decide) hc
    rw [Char.isDigit, Bool.and_eq_true, decide_eq_true_eq, decide_eq_true_eq] at hdig
    have hhi : c.toNat ≤ 0x39 := hdig.2
    omega
  unfold decNat decText
  rw [hmap _ _ hsmall, Nat.ofDigitChars_toDigits (by decide) (by decide)]

lemma decText_length_le_iff {n k : ℕ} (hk : 0 < k) : (decText n).length ≤ k ↔ n < 10 ^ k := by
  unfold decText
  rw [List.length_map, Nat.length_toDigits_le_iff (by decide) hk]

lemma decText_ne_nil (n : ℕ) : decText n ≠ [] := by
  unfold decText
  rw [Ne, List.map_eq_nil_iff]
  exact Nat.toDigits_ne_nil

lemma decText_zero_cons {n : ℕ} {ds : Bytes} (h : decText n = 0x30 :: ds) : ds = [] := by
  by_contra hne
  have hpos : 0 < ds.length := List.length_pos_of_ne_nil hne
  have hvalue : decNat ds = n := by
    have hall := decNat_cons 0x30 ds
    have hzero : UInt8.toNat 0x30 - 0x30 = 0 := rfl
    rw [← h, decNat_decText, hzero, Nat.zero_mul, Nat.zero_add] at hall
    exact hall.symm
  have hdigits : ∀ c ∈ ds, IsDigit c := fun c hc => isDigit_decText (n := n) (h ▸ List.mem_cons_of_mem _ hc)
  have hlen := (decText_length_le_iff hpos).mpr (hvalue ▸ decNat_lt hdigits)
  rw [h, List.length_cons] at hlen
  omega

/-! ### Numbers with a point -/

lemma point_inj {as bs as' bs' : Bytes} (h : 0x2e ∉ as) (h' : 0x2e ∉ as')
    (heq : as ++ 0x2e :: bs = as' ++ 0x2e :: bs') : as = as' ∧ bs = bs' := by
  induction as generalizing as' with
  | nil =>
    cases as' with
    | nil => exact ⟨rfl, (List.cons.inj heq).2⟩
    | cons c as' =>
      obtain ⟨rfl, -⟩ := List.cons.inj heq
      exact absurd List.mem_cons_self h'
  | cons a as ih =>
    cases as' with
    | nil =>
      obtain ⟨rfl, -⟩ := List.cons.inj heq
      exact absurd List.mem_cons_self h
    | cons c as' =>
      obtain ⟨rfl, htail⟩ := List.cons.inj heq
      obtain ⟨rfl, rfl⟩ := ih (fun hmem => h (List.mem_cons_of_mem a hmem))
        (fun hmem => h' (List.mem_cons_of_mem a hmem)) htail
      exact ⟨rfl, rfl⟩

lemma point_notMem {ds : Bytes} (h : ∀ c ∈ ds, IsDigit c) : 0x2e ∉ ds :=
  fun hmem => absurd (h _ hmem) (by decide)

lemma decimalValue_lt {integer decimals : Bytes} (hint : ∀ c ∈ integer, IsDigit c)
    (hdec : ∀ c ∈ decimals, IsDigit c) : decimalValue integer decimals < 10 ^ integer.length := by
  have hi : (decNat integer : ℚ) + 1 ≤ 10 ^ integer.length := by
    exact_mod_cast Nat.succ_le_of_lt (decNat_lt hint)
  have hd : (decNat decimals : ℚ) < 10 ^ decimals.length := by exact_mod_cast decNat_lt hdec
  have hpos : (0 : ℚ) < 10 ^ decimals.length := by positivity
  have hfrac : (decNat decimals : ℚ) / 10 ^ decimals.length < 1 := (div_lt_one hpos).mpr hd
  unfold decimalValue
  linarith

lemma decimalValue_eq (integer decimals : Bytes) :
    decimalValue integer decimals = decNat (integer ++ decimals) / 10 ^ decimals.length := by
  unfold decimalValue
  rw [decNat_append]
  push_cast
  field_simp

/-- The digits behind the point up to the `k`-th, with zeros where there are fewer. -/
def padDecimals (k : ℕ) (decimals : Bytes) : Bytes :=
  decimals.take k ++ List.replicate (k - decimals.length) 0x30

@[simp] lemma padDecimals_length (k : ℕ) (decimals : Bytes) : (padDecimals k decimals).length = k := by
  unfold padDecimals
  rw [List.length_append, List.length_take, List.length_replicate]
  omega

/-- **A number with a point, cut after its `k`-th decimal.** -/
theorem floor_decimalValue (integer : Bytes) {decimals : Bytes} (h : ∀ c ∈ decimals, IsDigit c) (k : ℕ) :
    ⌊decimalValue integer decimals * 10 ^ k⌋₊ = decNat (integer ++ padDecimals k decimals) := by
  rw [decNat_append, padDecimals_length]
  rw [Nat.floor_eq_iff (by unfold decimalValue; positivity)]
  unfold decimalValue padDecimals
  rw [decNat_append, decNat_zeros, Nat.add_zero, List.length_replicate]
  by_cases hk : decimals.length ≤ k
  · -- all decimals are there
    rw [List.take_of_length_le hk]
    have hpow : (10 : ℚ) ^ k = 10 ^ decimals.length * 10 ^ (k - decimals.length) := by
      rw [← pow_add, Nat.add_sub_cancel' hk]
    have heq : ((decNat integer : ℚ) + decNat decimals / 10 ^ decimals.length) * 10 ^ k =
        ((decNat integer * 10 ^ k + decNat decimals * 10 ^ (k - decimals.length) : ℕ) : ℚ) := by
      push_cast
      rw [hpow]
      field_simp
    rw [heq]
    exact ⟨le_rfl, by linarith⟩
  · -- the decimals behind the `k`-th count for less than one
    have hlt : k < decimals.length := not_le.mp hk
    have hsplit := decNat_append (decimals.take k) (decimals.drop k)
    rw [List.take_append_drop, List.length_drop] at hsplit
    have hdigits : ∀ c ∈ decimals.drop k, IsDigit c := fun c hc => h c (List.mem_of_mem_drop hc)
    have hrest : (decNat (decimals.drop k) : ℚ) < 10 ^ (decimals.length - k) := by
      have hlt' := decNat_lt hdigits
      rw [List.length_drop] at hlt'
      exact_mod_cast hlt'
    have hpow : (10 : ℚ) ^ decimals.length = 10 ^ k * 10 ^ (decimals.length - k) := by
      rw [← pow_add, Nat.add_sub_cancel' hlt.le]
    have heq : ((decNat integer : ℚ) + decNat decimals / 10 ^ decimals.length) * 10 ^ k =
        decNat integer * 10 ^ k + decNat (decimals.take k) +
          decNat (decimals.drop k) / 10 ^ (decimals.length - k) := by
      rw [hsplit, hpow]
      push_cast
      field_simp
      ring
    have hpos : (0 : ℚ) < 10 ^ (decimals.length - k) := by positivity
    have hfrac : (decNat (decimals.drop k) : ℚ) / 10 ^ (decimals.length - k) < 1 :=
      (div_lt_one hpos).mpr hrest
    have hnonneg : (0 : ℚ) ≤ decNat (decimals.drop k) / 10 ^ (decimals.length - k) := by positivity
    rw [heq, Nat.sub_eq_zero_of_le hlt.le, Nat.pow_zero, Nat.mul_one]
    push_cast
    exact ⟨by linarith, by linarith⟩

end Libaergo.Lib
