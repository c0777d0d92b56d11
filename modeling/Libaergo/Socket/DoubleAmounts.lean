import Libaergo.Arguments
import Libaergo.Socket.Amounts

/-!
# Amounts that are doubles (`aergo.c`)

`aergo_transfer` prints its `double` with `"%f"` and hands the text on to `aergo_transfer_str`.  Six decimals are
left of the value, rounded to the nearest and ties to the even one, and the sign is lost on the way: a transfer of
a negative value sends its absolute value.  What is sent is the value just where it is a multiple of a millionth
that the buffers hold; up to half a millionth nothing is sent (`transfersValue_iff`).
-/

namespace Libaergo

open Lib Arguments

/-! ### The entry points -/

/-- `snprintf(amount_str, sizeof(amount_str), "%f", value)` -/
def doubleStr (value : Double) : Bytes := value.text.take 35

def aergoTransfer (S : Setup) (w : World) (receipt fromAccount : ℕ) (account : Account) (toAccount : Bytes)
    (value : Double) (waits : Waits) : Option Returned :=
  aergoTransferStr S w receipt fromAccount account toAccount (doubleStr value) waits

def aergoTransferAsync (S : Setup) (w : World) (callback arg fromAccount : ℕ) (account : Account) (toAccount : Bytes)
    (value : Double) (waits : Waits) : Option Returned :=
  aergoTransferStrAsync S w callback arg fromAccount account toAccount (doubleStr value) waits

/-! ### Exact transfers -/

/-- The number that a `double` is, if it is one. -/
def doubleValue : Double → Option ℚ
  | .finite negative mantissa exponent _ _ =>
    some ((if negative then -1 else 1) *
      (((mantissa * 2 ^ exponent.toNat : ℕ) : ℚ) / ((2 ^ (-exponent).toNat : ℕ) : ℚ)))
  | _ => none

/-- Nothing was built, or a message with the value as its amount. -/
def BuildsValue (value : Double) (prepared : Option Prepared) (R : Returned) : Prop :=
  R.value = false ∧ R.txnHash = none ∨
    ∃ n : ℕ, doubleValue value = some ((n : ℚ) / 10 ^ 18) ∧ BuildsAmount prepared R n

/-- **The transfer of a value is exact**: the conversion stays in its buffers, and either nothing is built or a
transaction with the value as its amount. -/
structure TransfersValue (value : Double) : Prop where
  inside : ∀ toAccount, transferStr (doubleStr value) toAccount ≠ none
  sync : ∀ {S : Setup} {w : World} {receipt a : ℕ} {account : Account} {toAccount : Bytes} {waits : Waits}
    {t : EntryPoint} {R : Returned}, S.devices.Sized → transferStr (doubleStr value) toAccount = some t →
    aergoTransfer S w receipt a account toAccount value waits = some R →
    BuildsValue value (t.prepare S (w.handOver receipt) a account waits) R
  async : ∀ {S : Setup} {w : World} {callback arg a : ℕ} {account : Account} {toAccount : Bytes} {waits : Waits}
    {t : EntryPoint} {R : Returned}, S.devices.Sized → transferStr (doubleStr value) toAccount = some t →
    aergoTransferAsync S w callback arg a account toAccount value waits = some R →
    BuildsValue value (t.prepare S w a account waits) R

/-! ### Rounding -/

section Rounding

variable {n d : ℕ}

lemma roundHalfEven_near (hd : 0 < d) :
    2 * (roundHalfEven n d * d) ≤ 2 * n + d ∧ 2 * n ≤ 2 * (roundHalfEven n d * d) + d := by
  have hn := Nat.div_add_mod n d
  have hlt := Nat.mod_lt n hd
  rw [Nat.mul_comm] at hn
  unfold roundHalfEven
  split
  · next h => omega
  · next h =>
    rw [Nat.add_mul, Nat.one_mul]
    omega

/-- The rounding is exact just where there is nothing to round. -/
lemma roundHalfEven_mul_eq_iff (hd : 0 < d) : roundHalfEven n d * d = n ↔ d ∣ n := by
  refine ⟨fun h => ⟨_, (h.symm.trans (Nat.mul_comm ..))⟩, fun h => ?_⟩
  have hzero : n % d = 0 := Nat.eq_zero_of_dvd_of_lt ((Nat.dvd_mod_iff dvd_rfl).mpr h) (Nat.mod_lt n hd)
  rw [roundHalfEven, if_pos (.inl (by omega)), Nat.div_mul_cancel h]

/-- The rounding is zero up to the half. -/
lemma roundHalfEven_eq_zero_iff (hd : 0 < d) : roundHalfEven n d = 0 ↔ 2 * n ≤ d := by
  obtain ⟨-, hle⟩ := roundHalfEven_near (n := n) hd
  constructor
  · intro h
    rw [h] at hle
    omega
  · intro h
    have hlt : n < d := by omega
    rw [roundHalfEven, Nat.div_eq_of_lt hlt, Nat.mod_eq_of_lt hlt, if_pos (by omega)]

end Rounding

/-! ### The text -/

section Text

variable {negative : Bool} {n : ℕ}

def frontText (negative : Bool) (n : ℕ) : Bytes := (if negative then [0x2d] else []) ++ decText (n / 10 ^ 6)

def sixDecimals (n : ℕ) : Bytes :=
  List.replicate (6 - (decText (n % 10 ^ 6)).length) 0x30 ++ decText (n % 10 ^ 6)

lemma millionths_eq (negative : Bool) (n : ℕ) :
    (if negative then [0x2d] else []) ++ millionths n = frontText negative n ++ 0x2e :: sixDecimals n := by
  rw [millionths, frontText, List.append_assoc]
  rfl

lemma sixDecimals_length (n : ℕ) : (sixDecimals n).length = 6 := by
  have hlt : n % 10 ^ 6 < 10 ^ 6 := Nat.mod_lt _ (by decide)
  have hle := (decText_length_le_iff (by decide)).mpr hlt
  rw [sixDecimals, List.length_append, List.length_replicate]
  omega

lemma isDigit_sixDecimals {c : UInt8} (h : c ∈ sixDecimals n) : IsDigit c := by
  rcases List.mem_append.mp h with h | h
  · rw [List.eq_of_mem_replicate h]
    exact isDigit_zero
  · exact isDigit_decText h

lemma decNat_sixDecimals (n : ℕ) : decNat (sixDecimals n) = n % 10 ^ 6 := by
  rw [sixDecimals, decNat_append, decNat_zeros, Nat.zero_mul, Nat.zero_add, decNat_decText]

lemma frontText_noPoint (negative : Bool) (n : ℕ) : 0x2e ∉ frontText negative n := by
  refine List.not_mem_append ?_ (point_notMem fun c hc => isDigit_decText hc)
  cases negative <;> decide

lemma padDecimals_sixDecimals (n : ℕ) : padDecimals 18 (sixDecimals n) = sixDecimals n ++ List.replicate 12 0x30 := by
  have hlen := sixDecimals_length n
  rw [padDecimals, List.take_of_length_le (by omega), hlen]

/-- The text in front of the point and the decimals are read as the number of them. -/
lemma readAmount_front (negative : Bool) (n : ℕ) :
    readAmount (frontText negative n ++ padDecimals 18 (sixDecimals n)) = some (beShort (n * 10 ^ 12)) := by
  have hdigits : ∀ c ∈ decText (n / 10 ^ 6) ++ padDecimals 18 (sixDecimals n), IsDigit c := by
    rw [padDecimals_sixDecimals]
    refine List.forall_mem_append.mpr ⟨fun c hc => isDigit_decText hc, List.forall_mem_append.mpr
      ⟨fun c hc => isDigit_sixDecimals hc, fun c hc => ?_⟩⟩
    rw [List.eq_of_mem_replicate hc]
    exact isDigit_zero
  have hnum : decNat (decText (n / 10 ^ 6) ++ padDecimals 18 (sixDecimals n)) = n * 10 ^ 12 := by
    have hsplit := Nat.div_add_mod n (10 ^ 6)
    rw [decNat_append, padDecimals_length, padDecimals_sixDecimals, decNat_append, decNat_zeros, List.length_replicate,
      decNat_decText, decNat_sixDecimals]
    omega
  cases negative with
  | false =>
    rw [frontText, if_neg Bool.false_ne_true, List.nil_append, readAmount_digits hdigits, hnum]
  | true =>
    rw [frontText, if_pos rfl, List.append_assoc, List.singleton_append, readAmount_minus hdigits, hnum]

/-- **What `string_to_bignum` makes of the text of a value**: its millionths, if sign and digits are 17 at most. -/
lemma stringToBignum_finite (negative : Bool) (n : ℕ) :
    stringToBignum ((frontText negative n ++ 0x2e :: sixDecimals n).take 35) 16 =
      if (frontText negative n).length ≤ 17 then some (some (beShort (n * 10 ^ 12))) else none := by
  have hfront := frontText_noPoint negative n
  have hread := readAmount_front negative n
  have hsix := sixDecimals_length n
  generalize frontText negative n = front at hfront hread ⊢
  by_cases hlong : front.length ≤ 34
  · obtain ⟨k, hk⟩ : ∃ k, 35 - front.length = k + 1 := ⟨34 - front.length, by omega⟩
    have hcut : (front ++ 0x2e :: sixDecimals n).take 35 = front ++ 0x2e :: (sixDecimals n).take k := by
      rw [List.take_append, List.take_of_length_le (by omega), hk, List.take_succ_cons]
    rw [hcut, stringToBignum_point (idxOf?_append_cons _ hfront), Nat.mod_eq_of_lt (by omega)]
    by_cases hshort : front.length ≤ 17
    · have htake : (front ++ 0x2e :: (sixDecimals n).take k).take front.length = front := List.take_left
      have hdrop : (front ++ 0x2e :: (sixDecimals n).take k).drop (front.length + 1) = sixDecimals n := by
        rw [← List.drop_drop, List.drop_left, List.drop_succ_cons, List.drop_zero, List.take_of_length_le (by omega)]
      rw [if_pos hshort, if_pos hshort, htake, hdrop, hread]
    · rw [if_neg hshort, if_neg hshort]
  · have hcut : (front ++ 0x2e :: sixDecimals n).take 35 = front.take 35 := List.take_append_of_le_length (by omega)
    have hnone : (front.take 35).idxOf? 0x2e = none :=
      List.idxOf?_eq_none_iff.mpr fun hmem => hfront (List.mem_of_mem_take hmem)
    rw [hcut, stringToBignum_noPoint hnone, List.length_take, if_neg (by omega), if_neg (by omega)]

end Text

/-! ### What is sent -/

section Sent

variable {value : Double} {negative : Bool} {mantissa : ℕ} {exponent : ℤ}

/-- The millionths that are printed of `mantissa · 2 ^ exponent`. -/
def printedMillionths (mantissa : ℕ) (exponent : ℤ) : ℕ :=
  roundHalfEven (mantissa * 2 ^ exponent.toNat * 10 ^ 6) (2 ^ (-exponent).toNat)

/-- The transfer of a finite value: its millionths, without the sign. -/
lemma transferStr_finite (negative : Bool) (hm : mantissa < 2 ^ 53) (he : -1074 ≤ exponent ∧ exponent ≤ 971)
    (toAccount : Bytes) :
    transferStr (doubleStr (.finite negative mantissa exponent hm he)) toAccount =
      if (frontText negative (printedMillionths mantissa exponent)).length ≤ 17 then
        some (.transferBignum toAccount (beShort (printedMillionths mantissa exponent * 10 ^ 12)))
      else none := by
  have htext : doubleStr (.finite negative mantissa exponent hm he) =
      (frontText negative (printedMillionths mantissa exponent) ++
        0x2e :: sixDecimals (printedMillionths mantissa exponent)).take 35 := by
    rw [doubleStr, Double.text, ← printedMillionths, millionths_eq]
  rw [transferStr, htext, stringToBignum_finite]
  by_cases hshort : (frontText negative (printedMillionths mantissa exponent)).length ≤ 17
  · rw [if_pos hshort, if_pos hshort, Option.map_some, Option.getD_some]
  · rw [if_neg hshort, if_neg hshort, Option.map_none]

lemma not_signed {t : Bytes} {c : UInt8} (hmem : c ∈ t) (hdigit : ¬ IsDigit c) (hminus : c ≠ 0x2d) : ¬ Signed t := by
  rintro (h | ⟨ds, rfl, h⟩)
  · exact hdigit (h c hmem)
  · exact hdigit (h c ((List.mem_cons.mp hmem).resolve_left hminus))

lemma transferStr_other (h : doubleValue value = none) (toAccount : Bytes) :
    transferStr (doubleStr value) toAccount = some (.transferBignum toAccount []) := by
  have hletter : 0x6e ∈ doubleStr value ∧ (doubleStr value).idxOf? 0x2e = none ∧ (doubleStr value).length ≤ 17 := by
    cases value with
    | finite => cases h
    | infinity negative => cases negative <;> decide
    | nan negative => cases negative <;> decide
  obtain ⟨hmem, hpoint, hlen⟩ := hletter
  have hread : ¬ Signed (doubleStr value ++ padDecimals 18 []) :=
    not_signed (List.mem_append_left _ hmem) (by decide) (by decide)
  rw [transferStr, stringToBignum_noPoint hpoint, if_pos hlen, readAmount_other hread]
  rfl

lemma prepare_nothing {S : Setup} {w : World} {a : ℕ} {account : Account} {toAccount : Bytes} {waits : Waits} :
    (EntryPoint.transferBignum toAccount []).prepare S w a account waits = some (.stopped w) := by
  have hrefuses : ¬ (EntryPoint.transferBignum toAccount []).Accepts := Nat.lt_irrefl 0
  rw [EntryPoint.prepare, if_pos hrefuses]

lemma transfersValue_of {n : ℕ}
    (hstr : ∀ toAccount, transferStr (doubleStr value) toAccount = some (.transferBignum toAccount (beShort n)))
    (hn : n = 0 ∨ doubleValue value = some ((n : ℚ) / 10 ^ 18)) : TransfersValue value := by
  have hbuilds : ∀ {S : Setup} {w : World} {a : ℕ} {account : Account} {toAccount : Bytes} {waits : Waits}
      {R : Returned}, S.devices.Sized → (R.value = false ∧ R.txnHash = none ∨ ∃ encoded w',
        (EntryPoint.transferBignum toAccount (beShort n)).prepare S w a account waits = some (.built encoded w') ∧
          R.txnHash = some encoded.txnHash) →
      BuildsValue value ((EntryPoint.transferBignum toAccount (beShort n)).prepare S w a account waits) R := by
    intro S w a account toAccount waits R hD h
    rcases hn with rfl | hvalue
    · refine .inl (h.resolve_right ?_)
      rintro ⟨encoded, w', hp, -⟩
      cases prepare_nothing.symm.trans hp
    · exact .inr ⟨n, hvalue, buildsAmount_of_cases hD h⟩
  refine ⟨fun toAccount => ?_, fun hD ht hR => ?_, fun hD ht hR => ?_⟩
  · rw [hstr toAccount]
    exact Option.some_ne_none _
  · rw [hstr] at ht
    obtain rfl := Option.some.inj ht
    rw [aergoTransfer, aergoTransferStr, hstr, Option.bind_some] at hR
    exact hbuilds hD (run_cases hR)
  · rw [hstr] at ht
    obtain rfl := Option.some.inj ht
    rw [aergoTransferAsync, aergoTransferStrAsync, hstr, Option.bind_some] at hR
    exact hbuilds hD (runAsync_cases hR)

lemma doubleValue_of_transfers {n : ℕ} (h : TransfersValue value)
    (hstr : transferStr (doubleStr value) [] = some (.transferBignum [] (beShort n))) (hpos : n ≠ 0)
    (hsmall : n < 256 ^ 16) : doubleValue value = some ((n : ℚ) / 10 ^ 18) := by
  have hlenpos : 0 < (beShort n).length := by
    by_contra hnil
    have hbytes := beNat_beShort n
    rw [List.length_eq_zero_iff.mp (Nat.eq_zero_of_not_pos hnil)] at hbytes
    exact hpos hbytes.symm
  obtain ⟨R, hash, hR, hhash⟩ := transfer_built hlenpos (beShort_length_le_iff.mpr hsmall)
  have htransfer : aergoTransfer keySetup knownChain 1 0 (sampleAccount false) [] value noWaits = some R := by
    rw [aergoTransfer, aergoTransferStr, hstr, Option.bind_some]
    exact hR
  rcases h.sync softwareKey_sized hstr htransfer with
    ⟨-, hnone⟩ | ⟨m, hvalue, ⟨-, hnone⟩ | ⟨encoded, w, hp, -, hamount⟩⟩
  · rw [hhash] at hnone
    cases hnone
  · rw [hhash] at hnone
    cases hnone
  · have hsent := built_amount softwareKey_sized hp
    rw [hsent] at hamount
    rw [hvalue, beShort_inj (Option.some.inj hamount)]

section Finite

variable {hm : mantissa < 2 ^ 53} {he : -1074 ≤ exponent ∧ exponent ≤ 971} {q : ℚ}

lemma doubleValue_nonpos (hq : doubleValue (.finite true mantissa exponent hm he) = some q) : q ≤ 0 := by
  obtain rfl := Option.some.inj hq
  rw [if_pos rfl, neg_one_mul]
  exact neg_nonpos.mpr (by positivity)

/-- What is printed of a finite value, as far as it matters: it is nothing up to half a millionth, and exact where
the value is a multiple of it. -/
lemma printedMillionths_iff (hq : doubleValue (.finite negative mantissa exponent hm he) = some q) :
    (printedMillionths mantissa exponent = 0 ↔ |q| ≤ 1 / (2 * 10 ^ 6)) ∧
      ∀ k : ℕ, q * 10 ^ 6 = k → printedMillionths mantissa exponent = k := by
  obtain rfl := Option.some.inj hq
  have hd : 0 < 2 ^ (-exponent).toNat := Nat.two_pow_pos _
  have hprinted : printedMillionths mantissa exponent =
      roundHalfEven (mantissa * 2 ^ exponent.toNat * 10 ^ 6) (2 ^ (-exponent).toNat) := rfl
  have habs : |(if negative then -1 else 1) *
      (((mantissa * 2 ^ exponent.toNat : ℕ) : ℚ) / ((2 ^ (-exponent).toNat : ℕ) : ℚ))| =
        ((mantissa * 2 ^ exponent.toNat : ℕ) : ℚ) / ((2 ^ (-exponent).toNat : ℕ) : ℚ) := by
    have hpos : 0 ≤ ((mantissa * 2 ^ exponent.toNat : ℕ) : ℚ) / ((2 ^ (-exponent).toNat : ℕ) : ℚ) := by positivity
    have hsign : |(if negative then -1 else 1 : ℚ)| = 1 := by cases negative <;> norm_num
    exact (abs_mul _ _).trans (by rw [hsign, one_mul, abs_of_nonneg hpos])
  generalize mantissa * 2 ^ exponent.toNat = N at habs hprinted ⊢
  generalize 2 ^ (-exponent).toNat = d at habs hprinted hd ⊢
  have hdq : (0 : ℚ) < d := by exact_mod_cast hd
  constructor
  · rw [hprinted, roundHalfEven_eq_zero_iff hd, habs, div_le_div_iff₀ hdq (by norm_num)]
    constructor
    · intro h
      have hq : (2 : ℚ) * (N * 10 ^ 6) ≤ d := by exact_mod_cast h
      linarith
    · intro h
      have hq : (2 : ℚ) * (N * 10 ^ 6) ≤ d := by linarith
      exact_mod_cast hq
  · intro k hk
    have hkq : (N : ℚ) * 10 ^ 6 = k * d := by
      have hten : (0 : ℚ) < 10 ^ 6 := by norm_num
      have habs' := congrArg abs hk
      rw [abs_mul, abs_of_pos hten, Nat.abs_cast, habs] at habs'
      field_simp at habs'
      linarith
    have hkn : N * 10 ^ 6 = k * d := by exact_mod_cast hkq
    have hexact : printedMillionths mantissa exponent * d = N * 10 ^ 6 := by
      rw [hprinted]
      exact (roundHalfEven_mul_eq_iff hd).mpr ⟨k, hkn.trans (Nat.mul_comm ..)⟩
    exact Nat.eq_of_mul_eq_mul_right hd (hexact.trans hkn)

end Finite

end Sent

/-- **The values that are transferred exactly**: up to half a millionth, of which nothing is sent, and from zero on
the multiples of a millionth below 10^17; infinities and what is no number are refused. -/
theorem transfersValue_iff (value : Double) : TransfersValue value ↔ ∀ q, doubleValue value = some q →
    |q| ≤ 1 / (2 * 10 ^ 6) ∨ 0 ≤ q ∧ q < 10 ^ 17 ∧ ∃ k : ℕ, q * 10 ^ 6 = k := by
  cases hfinite : doubleValue value with
  | none =>
    have hstr : ∀ toAccount, transferStr (doubleStr value) toAccount = some (.transferBignum toAccount (beShort 0)) :=
      transferStr_other hfinite
    exact iff_of_true (transfersValue_of hstr (.inl rfl)) nofun
  | some q =>
    obtain ⟨negative, mantissa, exponent, hm, he, rfl⟩ : ∃ negative mantissa exponent hm he,
        value = .finite negative mantissa exponent hm he := by
      cases value with
      | finite negative mantissa exponent hm he => exact ⟨_, _, _, hm, he, rfl⟩
      | infinity negative => cases hfinite
      | nan negative => cases hfinite
    obtain ⟨hzero, hexact⟩ := printedMillionths_iff hfinite
    have hstr := transferStr_finite negative hm he
    have hsign := fun (h : negative = true) => doubleValue_nonpos (h ▸ hfinite)
    generalize printedMillionths mantissa exponent = n at hzero hexact hstr
    have hfront : (frontText negative n).length = (if negative then 1 else 0) + (decText (n / 10 ^ 6)).length := by
      rw [frontText, List.length_append]
      cases negative <;> rfl
    have hdigits : (decText (n / 10 ^ 6)).length ≤ 17 ↔ n / 10 ^ 6 < 10 ^ 17 := decText_length_le_iff (by decide)
    constructor
    · intro h q' hq'
      obtain rfl := Option.some.inj hq'
      by_cases hn : n = 0
      · exact .inl (hzero.mp hn)
      have hshort : (frontText negative n).length ≤ 17 := by
        by_contra hlong
        exact h.inside [] ((hstr []).trans (if_neg hlong))
      have hlt : n / 10 ^ 6 < 10 ^ 17 := hdigits.mp (by omega)
      have hbound : 256 ^ 16 = 2 ^ 128 := by norm_num
      have hvalue := doubleValue_of_transfers h ((hstr []).trans (if_pos hshort)) (by omega) (by omega)
      obtain rfl := Option.some.inj (hfinite.symm.trans hvalue)
      have hn23 : (n : ℚ) < 10 ^ 23 := by exact_mod_cast (show n < 10 ^ 23 by omega)
      refine .inr ⟨by positivity, ?_, n, ?_⟩
      · push_cast
        rw [div_lt_iff₀ (by norm_num)]
        linarith
      · push_cast
        ring
    · intro h
      by_cases hn : n = 0
      · subst hn
        have hshort : (frontText negative 0).length ≤ 17 := by cases negative <;> decide
        exact transfersValue_of (n := 0) (fun toAccount => (hstr toAccount).trans (if_pos hshort)) (.inl rfl)
      obtain ⟨hq0, hq17, k, hk⟩ := (h q rfl).resolve_left fun hsmall => hn (hzero.mpr hsmall)
      obtain rfl := hexact k hk
      have hnq : (n : ℚ) < 10 ^ 23 := by linarith
      have hn23 : n < 10 ^ 23 := by exact_mod_cast hnq
      have hpositive : negative = false := by
        rw [← Bool.not_eq_true]
        intro hneg
        have hq : q = 0 := le_antisymm (hsign hneg) hq0
        rw [hq, zero_mul] at hk
        exact hn (by exact_mod_cast hk.symm)
      have hshort : (frontText negative n).length ≤ 17 := by
        have := hdigits.mpr (by omega)
        rw [hfront, hpositive]
        simpa using this
      refine transfersValue_of (fun toAccount => (hstr toAccount).trans (if_pos hshort)) (.inr ?_)
      rw [hfinite]
      congr 1
      push_cast
      linarith

/-- The sign is lost: -1.5 is sent as 1.5. -/
example (hm : 3 < 2 ^ 53) (he : -1074 ≤ (-1 : ℤ) ∧ (-1 : ℤ) ≤ 971) : transferStr (doubleStr (.finite true 3 (-1) hm he)) [] =
    some (.transferBignum [] (beShort (15 * 10 ^ 17))) := by
  rw [transferStr_finite]
  rfl

end Libaergo
