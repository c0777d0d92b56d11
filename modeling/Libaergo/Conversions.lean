import Libaergo.Lib.Decimal
import Libaergo.Socket.Receive

/-!
# Amounts as texts (`conversions.c`)

`string_to_bignum` and `bignum_to_string` convert between decimal texts with up to 18 decimals and the
bytes of an amount, through text buffers of 36 bytes and the bignum functions of mbedtls, which are taken
as functions of integers with their own grammar and their own checks of the buffers.
-/

namespace Libaergo

open Lib

/-! ### mbedtls -/

def mpiGetDigit (radix : ℕ) (c : UInt8) : Option ℕ :=
  let d := if 0x30 ≤ c ∧ c ≤ 0x39 then c.toNat - 0x30
    else if 0x41 ≤ c ∧ c ≤ 0x46 then c.toNat - 0x37
    else if 0x61 ≤ c ∧ c ≤ 0x66 then c.toNat - 0x57
    else 255
  if radix ≤ d then none else some d

/-- The loop of `mbedtls_mpi_read_string`: digits are added to a positive number, and taken from a negative
one. -/
def mpiReadDigits (radix : ℕ) (sign : ℤ) : ℤ → Bytes → Option ℤ
  | x, [] => some x
  | x, c :: cs => (mpiGetDigit radix c).bind fun d => mpiReadDigits radix sign (x * radix + sign * d) cs

/-- `mbedtls_mpi_read_string` -/
def mpiReadString (radix : ℕ) (s : Bytes) : Option ℤ :=
  match s with
  | 0x2d :: cs => mpiReadDigits radix (-1) 0 cs
  | cs => mpiReadDigits radix 1 0 cs

/-- `mbedtls_mpi_size` -/
def mpiSize (x : ℤ) : ℕ := (x.natAbs.size + 7) / 8

/-- `mbedtls_mpi_write_binary` -/
def mpiWriteBinary (x : ℤ) (len : ℕ) : Option Bytes :=
  if x.natAbs < 256 ^ len then some (beBytes len x.natAbs) else none

/-- The size that `mbedtls_mpi_write_string` wants of its buffer for a decimal text: half the bits, and
room for the null byte, the rounding and a sign, made even. -/
def mpiStringSize (x : ℕ) : ℕ :=
  let n := x.size / 2 + 1 + 1 + 1
  n + n % 2

/-- `mbedtls_mpi_write_string` of a number without sign, with radix 10; the digits are counted again while
they are written. -/
def mpiWriteString (x buflen : ℕ) : Option Bytes :=
  if buflen < mpiStringSize x ∨ buflen < (decText x).length then none else some (decText x)

/-! ### From text to bytes -/

/-- `snprintf(integer, sizeof(integer), "%.*s", (int)(p-str), str)`: a negative precision is no
precision. -/
def copyInteger (str : Bytes) (p : ℕ) : Bytes :=
  (if 0 ≤ toInt p then str.take (toInt p).toNat else str).take 35

/-- The text in front of the decimals, and that behind the first point; none where `strcpy` overruns
`integer`. -/
def splitAmount (str : Bytes) : Option (Bytes × Bytes) :=
  match str.idxOf? 0x2e with
  | some p => some (copyInteger str p, str.drop (p + 1))
  | none => if str.length + 1 ≤ 36 then some (str, []) else none

/-- **`string_to_bignum`**: the bytes written to `out`, or `some none` for -1.  It is none where `strcat`
overruns `integer`, or the bytes overrun `out`, whose size is not looked at. -/
def stringToBignum (str : Bytes) (outlen : ℕ) : Option (Option Bytes) :=
  (splitAmount str).bind fun parts =>
    let integer := parts.1
    let decimal := padDecimals 18 parts.2
    if integer.length + decimal.length + 1 ≤ 36 then
      match mpiReadString 10 (integer ++ decimal) with
      | none => some none
      | some value =>
        match mpiWriteBinary value (mpiSize value) with
        | none => some none
        | some bytes => if bytes.length ≤ outlen then some (some bytes) else none
    else none

/-! ### From bytes to text -/

/-- **`bignum_to_string`**: the text in `out` and the value returned, or none for -1. -/
def bignumToString (buf : Bytes) (outlen : ℕ) : Option (Bytes × ℕ) :=
  (mpiWriteString (beNat buf) outlen).map fun digits =>
    let slen := digits.length + 1
    -- "%32s" to a buffer of 36 bytes, and zeros for the spaces
    let tmp := (List.leftpad 32 0x20 digits).take 35
    let spaces := (tmp.takeWhile (· = 0x20)).length
    let tmp := List.replicate spaces 0x30 ++ tmp.drop spaces
    -- "%.14s.%s"
    ((tmp.take 14 ++ 0x2e :: tmp.drop 14).take (outlen - 1), slen + spaces + 1)

/-! ### What mbedtls reads -/

/-- Digits, with or without a minus in front. -/
def Signed (t : Bytes) : Prop :=
  (∀ c ∈ t, IsDigit c) ∨ ∃ ds, t = 0x2d :: ds ∧ ∀ c ∈ ds, IsDigit c

lemma mpiGetDigit_digit {c : UInt8} (h : IsDigit c) : mpiGetDigit 10 c = some (c.toNat - 0x30) := by
  have hc := isDigit_iff.mp h
  have h' : 0x30 ≤ c ∧ c ≤ 0x39 := h
  unfold mpiGetDigit
  rw [if_pos h']
  exact if_neg (by omega)

lemma mpiGetDigit_other {c : UInt8} (h : ¬ IsDigit c) : mpiGetDigit 10 c = none := by
  have h' : ¬ (0x30 ≤ c ∧ c ≤ 0x39) := h
  unfold mpiGetDigit
  rw [if_neg h']
  dsimp only
  rw [if_pos]
  split
  · next hc =>
    have h1 := UInt8.le_iff_toNat_le.mp hc.1
    have h2 : (0x41 : UInt8).toNat = 0x41 := rfl
    omega
  · split
    · next hc =>
      have h1 := UInt8.le_iff_toNat_le.mp hc.1
      have h2 : (0x61 : UInt8).toNat = 0x61 := rfl
      omega
    · decide

lemma mpiReadDigits_digits {cs : Bytes} (h : ∀ c ∈ cs, IsDigit c) (sign x : ℤ) :
    mpiReadDigits 10 sign x cs = some (x * 10 ^ cs.length + sign * decNat cs) := by
  induction cs generalizing x with
  | nil => simp [mpiReadDigits]
  | cons c cs ih =>
    have hc := mpiGetDigit_digit (h c List.mem_cons_self)
    rw [mpiReadDigits, hc, Option.bind_some, ih fun d hd => h d (List.mem_cons_of_mem c hd), decNat_cons,
      List.length_cons, pow_succ]
    congr 1
    push_cast
    ring

lemma mpiReadDigits_other {cs : Bytes} (h : ¬ ∀ c ∈ cs, IsDigit c) (sign x : ℤ) :
    mpiReadDigits 10 sign x cs = none := by
  induction cs generalizing x with
  | nil => exact absurd (fun c hc => absurd hc List.not_mem_nil) h
  | cons c cs ih =>
    by_cases hc : IsDigit c
    · have hcs : ¬ ∀ c ∈ cs, IsDigit c := fun hcs => h (List.forall_mem_cons.mpr ⟨hc, hcs⟩)
      rw [mpiReadDigits, mpiGetDigit_digit hc, Option.bind_some, ih hcs]
    · rw [mpiReadDigits, mpiGetDigit_other hc, Option.bind_none]

lemma mpiReadString_digits {t : Bytes} (h : ∀ c ∈ t, IsDigit c) : mpiReadString 10 t = some (decNat t) := by
  unfold mpiReadString
  split
  · exact absurd (h _ List.mem_cons_self) (by decide)
  · rw [mpiReadDigits_digits h]
    simp

lemma mpiReadString_minus {ds : Bytes} (h : ∀ c ∈ ds, IsDigit c) :
    mpiReadString 10 (0x2d :: ds) = some (-(decNat ds : ℤ)) := by
  show mpiReadDigits 10 (-1) 0 ds = _
  rw [mpiReadDigits_digits h]
  simp

/-- Nothing but digits, with or without a minus in front, is read. -/
lemma mpiReadString_other {t : Bytes} (h : ¬ Signed t) : mpiReadString 10 t = none := by
  unfold mpiReadString
  split
  · exact mpiReadDigits_other (fun hds => h (.inr ⟨_, rfl, hds⟩)) _ _
  · exact mpiReadDigits_other (fun hds => h (.inl hds)) _ _

/-! ### The text that mbedtls gets -/

/-- What is read of the text for a value, in bytes. -/
def readAmount (text : Bytes) : Option Bytes := (mpiReadString 10 text).map fun value => beShort value.natAbs

lemma readAmount_digits {t : Bytes} (h : ∀ c ∈ t, IsDigit c) : readAmount t = some (beShort (decNat t)) := by
  unfold readAmount
  rw [mpiReadString_digits h]
  rfl

lemma readAmount_minus {ds : Bytes} (h : ∀ c ∈ ds, IsDigit c) :
    readAmount (0x2d :: ds) = some (beShort (decNat ds)) := by
  unfold readAmount
  rw [mpiReadString_minus h, Option.map_some, Int.natAbs_neg]
  rfl

lemma readAmount_other {t : Bytes} (h : ¬ Signed t) : readAmount t = none := by
  unfold readAmount
  rw [mpiReadString_other h]
  rfl

lemma readAmount_isSome {t : Bytes} : (∃ bs, readAmount t = some bs) ↔ Signed t := by
  constructor
  · rintro ⟨bs, hbs⟩
    by_contra h
    rw [readAmount_other h] at hbs
    cases hbs
  · rintro (h | ⟨ds, rfl, h⟩)
    · exact ⟨_, readAmount_digits h⟩
    · exact ⟨_, readAmount_minus h⟩

lemma forall_padDecimals {k : ℕ} {ds : Bytes} :
    (∀ c ∈ padDecimals k ds, IsDigit c) ↔ ∀ c ∈ ds.take k, IsDigit c := by
  unfold padDecimals
  rw [List.forall_mem_append]
  refine and_iff_left fun c hc => ?_
  rw [List.eq_of_mem_replicate hc]
  exact isDigit_zero

lemma signed_padDecimals {integer ds : Bytes} {k : ℕ} :
    Signed (integer ++ padDecimals k ds) ↔ Signed (integer ++ ds.take k) := by
  have hzeros : ∀ c ∈ List.replicate (k - ds.length) (0x30 : UInt8), IsDigit c := by
    intro c hc
    rw [List.eq_of_mem_replicate hc]
    exact isDigit_zero
  unfold padDecimals Signed
  rw [← List.append_assoc]
  generalize integer ++ ds.take k = t
  rw [List.forall_mem_append, and_iff_left hzeros]
  refine or_congr_right ?_
  constructor
  · rintro ⟨rest, heq, hrest⟩
    cases t with
    | nil =>
      -- the minus would be a zero
      rw [List.nil_append] at heq
      have hmem : (0x2d : UInt8) ∈ List.replicate (k - ds.length) (0x30 : UInt8) := by
        rw [heq]
        exact List.mem_cons_self
      exact absurd (List.eq_of_mem_replicate hmem) (by decide)
    | cons c t =>
      obtain ⟨rfl, rfl⟩ := List.cons.inj heq
      exact ⟨t, rfl, fun x hx => hrest x (List.mem_append_left _ hx)⟩
  · rintro ⟨rest, rfl, hrest⟩
    exact ⟨rest ++ List.replicate (k - ds.length) 0x30, rfl, List.forall_mem_append.mpr ⟨hrest, hzeros⟩⟩

lemma decNat_lt_of_length {t : Bytes} (h : ∀ c ∈ t, IsDigit c) (hlen : t.length ≤ 35) :
    decNat t < 2 ^ 128 := by
  have hlt := decNat_lt h
  have hpow : 10 ^ t.length ≤ 10 ^ 35 := Nat.pow_le_pow_right (by decide) hlen
  have hbound : 10 ^ 35 < 2 ^ 128 := by norm_num
  omega

lemma mpiReadString_lt {t : Bytes} {value : ℤ} (h : mpiReadString 10 t = some value)
    (hlen : t.length ≤ 35) : value.natAbs < 2 ^ 128 := by
  by_cases hsigned : Signed t
  · rcases hsigned with hdigits | ⟨ds, rfl, hdigits⟩
    · rw [mpiReadString_digits hdigits] at h
      obtain rfl := Option.some.inj h
      exact decNat_lt_of_length hdigits hlen
    · rw [mpiReadString_minus hdigits] at h
      obtain rfl := Option.some.inj h
      rw [Int.natAbs_neg]
      rw [List.length_cons] at hlen
      exact decNat_lt_of_length hdigits (by omega)
  · rw [mpiReadString_other hsigned] at h
    cases h

/-- With its own size, a number is written without leading zeros. -/
lemma mpiWriteBinary_mpiSize (value : ℤ) : mpiWriteBinary value (mpiSize value) = some (beShort value.natAbs) := by
  have hlt : value.natAbs < 256 ^ mpiSize value := by
    have hle := beShort_length_le_iff.mp (le_refl (beShort value.natAbs).length)
    rwa [beShort_length] at hle
  exact if_pos hlt

/-- **The bytes of an amount**: 17 characters in front of the decimals are all that `integer` holds, and
what is read then fits 16 bytes. -/
lemma stringToBignum_eq (str : Bytes) :
    stringToBignum str 16 = (splitAmount str).bind fun parts =>
      if parts.1.length ≤ 17 then some (readAmount (parts.1 ++ padDecimals 18 parts.2)) else none := by
  unfold stringToBignum
  refine congrArg _ (funext fun parts => ?_)
  dsimp only
  have hlen : parts.1.length + (padDecimals 18 parts.2).length + 1 ≤ 36 ↔ parts.1.length ≤ 17 := by
    rw [padDecimals_length]
    omega
  by_cases hfit : parts.1.length ≤ 17
  · rw [if_pos (hlen.mpr hfit), if_pos hfit]
    cases hread : mpiReadString 10 (parts.1 ++ padDecimals 18 parts.2) with
    | none =>
      unfold readAmount
      rw [hread]
      rfl
    | some value =>
      have htotal : (parts.1 ++ padDecimals 18 parts.2).length ≤ 35 := by
        rw [List.length_append, padDecimals_length]
        omega
      have hlt := mpiReadString_lt hread htotal
      have hout : (beShort value.natAbs).length ≤ 16 := by
        refine beShort_length_le_iff.mpr (hlt.trans_le ?_)
        norm_num
      have hbytes : readAmount (parts.1 ++ padDecimals 18 parts.2) = some (beShort value.natAbs) := by
        unfold readAmount
        rw [hread, Option.map_some]
      rw [hbytes]
      dsimp only
      rw [mpiWriteBinary_mpiSize]
      exact if_pos hout
  · rw [if_neg (fun h => hfit (hlen.mp h)), if_neg hfit]

/-! ### Where the point is -/

lemma idxOf?_point {str : Bytes} {p : ℕ} (h : str.idxOf? 0x2e = some p) :
    str = str.take p ++ 0x2e :: str.drop (p + 1) ∧ 0x2e ∉ str.take p ∧ p < str.length := by
  obtain ⟨hlt, hp, hbefore⟩ := List.idxOf?_eq_some_iff.mp h
  refine ⟨?_, ?_, hlt⟩
  · rw [← hp, List.cons_getElem_drop_succ, List.take_append_drop]
  · intro hmem
    obtain ⟨i, hi, heq⟩ := List.getElem_of_mem hmem
    rw [List.length_take] at hi
    rw [List.getElem_take] at heq
    exact hbefore i (by omega) heq

/-- The part in front of the point is copied whole, if it is short; it is counted in an `int`. -/
lemma copyInteger_length_le_iff {str : Bytes} {p : ℕ} (hp : p < str.length) :
    (copyInteger str p).length ≤ 17 ↔ p % 2 ^ 32 ≤ 17 := by
  obtain ⟨k, hk, hlo, hhi⟩ := toInt_spec p
  unfold copyInteger
  split
  · rw [List.length_take, List.length_take]
    omega
  · rw [List.length_take]
    omega

lemma copyInteger_eq {str : Bytes} {p : ℕ} (h : p % 2 ^ 32 ≤ 17) :
    copyInteger str p = str.take (p % 2 ^ 32) := by
  obtain ⟨k, hk, hlo, hhi⟩ := toInt_spec p
  have heq : (toInt p).toNat = p % 2 ^ 32 := by omega
  unfold copyInteger
  rw [if_pos (by omega), heq, List.take_take, Nat.min_eq_right (by omega)]

/-! ### Exact amounts -/

/-- The text consists of digits with at most one point: those in front of it and those behind it. -/
def AmountText (str integer decimals : Bytes) : Prop :=
  (∀ c ∈ integer, IsDigit c) ∧ (∀ c ∈ decimals, IsDigit c) ∧
    (str = integer ++ 0x2e :: decimals ∨ str = integer ∧ decimals = [])

/-- A number with a point in units of the 18th decimal, cut behind it. -/
def aer (integer decimals : Bytes) : ℕ := ⌊decimalValue integer decimals * 10 ^ 18⌋₊

/-- **An amount is parsed exactly**: the bytes of its value come out if the text is a decimal number with
a value below 2^128, and -1 otherwise. -/
structure ParsedExactly (str : Bytes) : Prop where
  value : ∀ integer decimals, AmountText str integer decimals → aer integer decimals < 2 ^ 128 →
    stringToBignum str 16 = some (some (beShort (aer integer decimals)))
  refused : (¬ ∃ integer decimals, AmountText str integer decimals ∧ aer integer decimals < 2 ^ 128) →
    stringToBignum str 16 = some none

/-- At most 17 characters stand in front of the point, or in all without one; and mbedtls refuses the text
up to the 18th decimal, or all of it is digits.  Of 2^32 characters and more in front of the point the
number is taken modulo 2^32, and those that are cut off must not count. -/
def ReadsWhole (str : Bytes) : Prop :=
  match str.idxOf? 0x2e with
  | none => str.length ≤ 17 ∧ (¬ Signed str ∨ ∀ c ∈ str, IsDigit c)
  | some p => p % 2 ^ 32 ≤ 17 ∧
    (¬ Signed (str.take (p % 2 ^ 32) ++ (str.drop (p + 1)).take 18) ∨
      (∀ c ∈ str.take p, IsDigit c) ∧ (∀ c ∈ str.drop (p + 1), IsDigit c) ∧
        decNat (str.take (p % 2 ^ 32)) = decNat (str.take p))

section Exact

variable {str integer decimals : Bytes}

lemma aer_eq (h : ∀ c ∈ decimals, IsDigit c) :
    aer integer decimals = decNat (integer ++ padDecimals 18 decimals) := floor_decimalValue _ h 18

lemma amountText_noPoint (h : str.idxOf? 0x2e = none) :
    AmountText str integer decimals ↔ integer = str ∧ decimals = [] ∧ ∀ c ∈ str, IsDigit c := by
  have hpoint : 0x2e ∉ str := List.idxOf?_eq_none_iff.mp h
  constructor
  · rintro ⟨hint, -, rfl | ⟨rfl, rfl⟩⟩
    · exact absurd (List.mem_append_right _ List.mem_cons_self) hpoint
    · exact ⟨rfl, rfl, hint⟩
  · rintro ⟨rfl, rfl, hdigits⟩
    exact ⟨hdigits, fun c hc => absurd hc List.not_mem_nil, .inr ⟨rfl, rfl⟩⟩

lemma amountText_point {p : ℕ} (h : str.idxOf? 0x2e = some p) :
    AmountText str integer decimals ↔ integer = str.take p ∧ decimals = str.drop (p + 1) ∧
      (∀ c ∈ str.take p, IsDigit c) ∧ ∀ c ∈ str.drop (p + 1), IsDigit c := by
  obtain ⟨hstr, hfront, hlt⟩ := idxOf?_point h
  constructor
  · rintro ⟨hint, hdec, heq | ⟨rfl, rfl⟩⟩
    · -- the first point is the only one
      obtain ⟨htake, hdrop⟩ := point_inj (point_notMem hint) hfront (heq.symm.trans hstr)
      rw [← htake, ← hdrop]
      exact ⟨rfl, rfl, hint, hdec⟩
    · have hmem : 0x2e ∈ str := by
        rw [hstr]
        exact List.mem_append_right _ List.mem_cons_self
      exact absurd (hint _ hmem) (by decide)
  · rintro ⟨rfl, rfl, hint, hdec⟩
    exact ⟨hint, hdec, .inl hstr⟩

lemma stringToBignum_noPoint (h : str.idxOf? 0x2e = none) :
    stringToBignum str 16 =
      if str.length ≤ 17 then some (readAmount (str ++ padDecimals 18 [])) else none := by
  rw [stringToBignum_eq, splitAmount, h]
  dsimp only
  by_cases hcopy : str.length + 1 ≤ 36
  · rw [if_pos hcopy, Option.bind_some]
  · rw [if_neg hcopy, Option.bind_none, if_neg (by omega)]

lemma stringToBignum_point {p : ℕ} (h : str.idxOf? 0x2e = some p) :
    stringToBignum str 16 =
      if p % 2 ^ 32 ≤ 17 then
        some (readAmount (str.take (p % 2 ^ 32) ++ padDecimals 18 (str.drop (p + 1))))
      else none := by
  obtain ⟨-, -, hlt⟩ := idxOf?_point h
  have hfit := copyInteger_length_le_iff hlt
  rw [stringToBignum_eq, splitAmount, h]
  dsimp only
  rw [Option.bind_some]
  dsimp only
  by_cases hp : p % 2 ^ 32 ≤ 17
  · have hcopy := hfit.mpr hp
    rw [if_pos hcopy, if_pos hp, copyInteger_eq hp]
  · have hcopy : ¬ (copyInteger str p).length ≤ 17 := fun hle => hp (hfit.mp hle)
    rw [if_neg hcopy, if_neg hp]

lemma ParsedExactly.ne_none (h : ParsedExactly str) : stringToBignum str 16 ≠ none := by
  intro hnone
  by_cases hex : ∃ integer decimals, AmountText str integer decimals ∧ aer integer decimals < 2 ^ 128
  · obtain ⟨integer, decimals, htext, hlt⟩ := hex
    have hval := h.value integer decimals htext hlt
    rw [hnone] at hval
    cases hval
  · have href := h.refused hex
    rw [hnone] at href
    cases href

/-- What comes out where the parsing is exact is the value of a decimal number. -/
lemma ParsedExactly.of_some {bs : Bytes} (h : ParsedExactly str) (hbs : stringToBignum str 16 = some (some bs)) :
    ∃ integer decimals, AmountText str integer decimals ∧ bs = beShort (aer integer decimals) := by
  by_cases hex : ∃ integer decimals, AmountText str integer decimals ∧ aer integer decimals < 2 ^ 128
  · obtain ⟨integer, decimals, htext, hlt⟩ := hex
    refine ⟨integer, decimals, htext, ?_⟩
    rw [h.value integer decimals htext hlt] at hbs
    exact (Option.some.inj (Option.some.inj hbs)).symm
  · rw [h.refused hex] at hbs
    cases hbs

/-- A text that mbedtls refuses is rightly refused, where no decimal number is. -/
lemma parsedExactly_of_refused (h : stringToBignum str 16 = some none)
    (hnot : ∀ integer decimals, ¬ AmountText str integer decimals) : ParsedExactly str where
  value integer decimals htext _ := absurd htext (hnot integer decimals)
  refused _ := h

lemma parsedExactly_of_value (htext : AmountText str integer decimals)
    (hlt : aer integer decimals < 2 ^ 128)
    (h : stringToBignum str 16 = some (some (beShort (aer integer decimals))))
    (honly : ∀ i d, AmountText str i d → i = integer ∧ d = decimals) : ParsedExactly str where
  value i d htext' _ := by
    obtain ⟨rfl, rfl⟩ := honly i d htext'
    exact h
  refused hno := absurd ⟨integer, decimals, htext, hlt⟩ hno

lemma parsedExactly_noPoint (h : str.idxOf? 0x2e = none) :
    ParsedExactly str ↔ str.length ≤ 17 ∧ (¬ Signed str ∨ ∀ c ∈ str, IsDigit c) := by
  have hresult := stringToBignum_noPoint h
  have hsigned : Signed (str ++ padDecimals 18 []) ↔ Signed str := by
    rw [signed_padDecimals, List.take_nil, List.append_nil]
  constructor
  · intro hexact
    have hlen : str.length ≤ 17 := by
      by_contra hlong
      rw [if_neg hlong] at hresult
      exact hexact.ne_none hresult
    refine ⟨hlen, or_iff_not_imp_left.mpr fun hread => ?_⟩
    obtain ⟨bs, hbs⟩ := readAmount_isSome.mpr (hsigned.mpr (not_not.mp hread))
    rw [if_pos hlen, hbs] at hresult
    obtain ⟨integer, decimals, htext, -⟩ := hexact.of_some hresult
    exact ((amountText_noPoint h).mp htext).2.2
  · rintro ⟨hlen, hor⟩
    rw [if_pos hlen] at hresult
    by_cases hdigits : ∀ c ∈ str, IsDigit c
    · have htext : AmountText str str [] := (amountText_noPoint h).mpr ⟨rfl, rfl, hdigits⟩
      have haer : aer str [] = decNat (str ++ padDecimals 18 []) := aer_eq htext.2.1
      have hall : ∀ c ∈ str ++ padDecimals 18 [], IsDigit c :=
        List.forall_mem_append.mpr ⟨hdigits, forall_padDecimals.mpr htext.2.1⟩
      have htotal : (str ++ padDecimals 18 []).length ≤ 35 := by
        rw [List.length_append, padDecimals_length]
        omega
      refine parsedExactly_of_value htext ?_ ?_ fun i d hid => ?_
      · rw [haer]
        exact decNat_lt_of_length hall htotal
      · rw [hresult, haer, readAmount_digits hall]
      · obtain ⟨rfl, rfl, -⟩ := (amountText_noPoint h).mp hid
        exact ⟨rfl, rfl⟩
    · have hnot : ¬ Signed str := hor.resolve_right hdigits
      rw [readAmount_other fun hs => hnot (hsigned.mp hs)] at hresult
      refine parsedExactly_of_refused hresult fun integer decimals htext => ?_
      exact hdigits ((amountText_noPoint h).mp htext).2.2

lemma parsedExactly_point {p : ℕ} (h : str.idxOf? 0x2e = some p) :
    ParsedExactly str ↔ p % 2 ^ 32 ≤ 17 ∧
      (¬ Signed (str.take (p % 2 ^ 32) ++ (str.drop (p + 1)).take 18) ∨
        (∀ c ∈ str.take p, IsDigit c) ∧ (∀ c ∈ str.drop (p + 1), IsDigit c) ∧
          decNat (str.take (p % 2 ^ 32)) = decNat (str.take p)) := by
  have hresult := stringToBignum_point h
  have hcut : str.take (p % 2 ^ 32) <+: str.take p := by
    refine List.take_prefix_take_left ?_
    exact Nat.mod_le _ _
  -- the digits in front of the point are those that were copied
  have hcopied : (∀ c ∈ str.take p, IsDigit c) → ∀ c ∈ str.take (p % 2 ^ 32), IsDigit c :=
    fun hall c hc => hall c (hcut.subset hc)
  have htaken : (∀ c ∈ str.drop (p + 1), IsDigit c) → ∀ c ∈ (str.drop (p + 1)).take 18, IsDigit c :=
    fun hall c hc => hall c (List.mem_of_mem_take hc)
  constructor
  · intro hexact
    have hlen : p % 2 ^ 32 ≤ 17 := by
      by_contra hlong
      rw [if_neg hlong] at hresult
      exact hexact.ne_none hresult
    refine ⟨hlen, or_iff_not_imp_left.mpr fun hread => ?_⟩
    obtain ⟨bs, hbs⟩ := readAmount_isSome.mpr (signed_padDecimals.mpr (not_not.mp hread))
    rw [if_pos hlen, hbs] at hresult
    obtain ⟨integer, decimals, htext, hval⟩ := hexact.of_some hresult
    obtain ⟨rfl, rfl, hint, hdec⟩ := (amountText_point h).mp htext
    refine ⟨hint, hdec, ?_⟩
    have hall : ∀ c ∈ str.take (p % 2 ^ 32) ++ padDecimals 18 (str.drop (p + 1)), IsDigit c :=
      List.forall_mem_append.mpr ⟨hcopied hint, forall_padDecimals.mpr (htaken hdec)⟩
    rw [readAmount_digits hall] at hbs
    have heq := beShort_inj ((Option.some.inj hbs).trans hval)
    rw [aer_eq hdec, decNat_append, decNat_append, padDecimals_length] at heq
    omega
  · rintro ⟨hlen, hor⟩
    rw [if_pos hlen] at hresult
    rcases hor with hnot | ⟨hint, hdec, hsame⟩
    · rw [readAmount_other fun hs => hnot (signed_padDecimals.mp hs)] at hresult
      refine parsedExactly_of_refused hresult fun integer decimals htext => ?_
      obtain ⟨-, -, hint, hdec⟩ := (amountText_point h).mp htext
      exact hnot (.inl (List.forall_mem_append.mpr ⟨hcopied hint, htaken hdec⟩))
    · have htext : AmountText str (str.take p) (str.drop (p + 1)) :=
        (amountText_point h).mpr ⟨rfl, rfl, hint, hdec⟩
      have hall : ∀ c ∈ str.take (p % 2 ^ 32) ++ padDecimals 18 (str.drop (p + 1)), IsDigit c :=
        List.forall_mem_append.mpr ⟨hcopied hint, forall_padDecimals.mpr (htaken hdec)⟩
      have haer : aer (str.take p) (str.drop (p + 1)) =
          decNat (str.take (p % 2 ^ 32) ++ padDecimals 18 (str.drop (p + 1))) := by
        rw [aer_eq hdec, decNat_append, decNat_append, hsame]
      have htotal : (str.take (p % 2 ^ 32) ++ padDecimals 18 (str.drop (p + 1))).length ≤ 35 := by
        rw [List.length_append, padDecimals_length, List.length_take]
        omega
      refine parsedExactly_of_value htext ?_ ?_ fun i d hid => ?_
      · rw [haer]
        exact decNat_lt_of_length hall htotal
      · rw [hresult, haer, readAmount_digits hall]
      · obtain ⟨rfl, rfl, -⟩ := (amountText_point h).mp hid
        exact ⟨rfl, rfl⟩

end Exact

/-- **The texts that are parsed exactly.** -/
theorem parsedExactly_iff (str : Bytes) : ParsedExactly str ↔ ReadsWhole str := by
  unfold ReadsWhole
  cases h : str.idxOf? 0x2e with
  | none => exact parsedExactly_noPoint h
  | some p => exact parsedExactly_point h

/-- **A sign is dropped, and a number of 18 digits overruns the buffer**: `-5` comes out as 5 · 10^18, and
`100000000000000000` with its decimals has 37 bytes. -/
theorem signed_amount_accepted :
    ¬ ParsedExactly [0x2d, 0x35] ∧
      stringToBignum [0x2d, 0x35] 16 = some (some (beShort (5 * 10 ^ 18))) ∧
      stringToBignum (0x31 :: List.replicate 17 0x30) 16 = none := by
  have hval : stringToBignum [0x2d, 0x35] 16 = some (some (beShort (5 * 10 ^ 18))) := by decide +kernel
  refine ⟨fun h => ?_, hval, by decide +kernel⟩
  obtain ⟨integer, decimals, htext, -⟩ := h.of_some hval
  obtain ⟨-, -, hdigits⟩ := (amountText_noPoint (by decide)).mp htext
  exact absurd hdigits (by decide)

/-! ### Exact texts -/

/-- **An amount is formatted exactly**: if a text comes out, it denotes the amount in units of 10^18, and
the value returned is its length and one. -/
def FormattedExactly (buf : Bytes) : Prop :=
  ∀ text ret, bignumToString buf 64 = some (text, ret) →
    Denotes text ((beNat buf : ℚ) / 10 ^ 18) ∧ ret = text.length + 1

/-- Numbers of up to 123 bits are written to a buffer of 64 bytes. -/
lemma mpiWriteString_eq (x : ℕ) : mpiWriteString x 64 = if x < 2 ^ 123 then some (decText x) else none := by
  have hsize : 64 < mpiStringSize x ↔ 2 ^ 123 ≤ x := by
    rw [← Nat.lt_size]
    unfold mpiStringSize
    dsimp only
    omega
  unfold mpiWriteString
  by_cases hx : x < 2 ^ 123
  · have hlen : (decText x).length ≤ 64 := by
      refine (decText_length_le_iff (by decide)).mpr (hx.trans ?_)
      norm_num
    rw [if_neg, if_pos hx]
    rintro (h | h)
    · exact absurd (hsize.mp h) (not_le.mpr hx)
    · exact absurd hlen (not_le.mpr h)
  · rw [if_pos (.inl (hsize.mpr (not_lt.mp hx))), if_neg hx]

lemma bignumToString_eq_none {buf : Bytes} (h : 2 ^ 123 ≤ beNat buf) : bignumToString buf 64 = none := by
  rw [bignumToString, mpiWriteString_eq, if_neg (not_lt.mpr h)]
  rfl

lemma takeWhile_digits {ds : Bytes} (h : ∀ c ∈ ds, IsDigit c) : ds.takeWhile (· = 0x20) = [] := by
  cases ds with
  | nil => rfl
  | cons c ds =>
    have hne : c ≠ 0x20 := by
      rintro rfl
      exact absurd (h _ List.mem_cons_self) (by decide)
    exact List.takeWhile_cons_of_neg (by simpa using hne)

lemma bignumToString_small {buf : Bytes} (h : beNat buf < 10 ^ 32) :
    ∃ digits : Bytes, digits.length = 32 ∧ (∀ c ∈ digits, IsDigit c) ∧ decNat digits = beNat buf ∧
      bignumToString buf 64 = some (digits.take 14 ++ 0x2e :: digits.drop 14, 34) := by
  have hdigits : ∀ c ∈ decText (beNat buf), IsDigit c := fun c hc => isDigit_decText hc
  have hlen : (decText (beNat buf)).length ≤ 32 := (decText_length_le_iff (by decide)).mpr h
  have hsmall : beNat buf < 2 ^ 123 := h.trans (by norm_num)
  rw [bignumToString, mpiWriteString_eq, if_pos hsmall, Option.map_some]
  have hnum := decNat_decText (beNat buf)
  generalize decText (beNat buf) = ds at hdigits hlen hnum ⊢
  obtain ⟨k, hk⟩ : ∃ k, k + ds.length = 32 := ⟨_, Nat.sub_add_cancel hlen⟩
  have hpad : (List.leftpad 32 0x20 ds).take 35 = List.replicate k 0x20 ++ ds := by
    have hsub : 32 - ds.length = k := by omega
    rw [List.leftpad, hsub, List.take_of_length_le]
    rw [List.length_append, List.length_replicate]
    omega
  have hspaces : (List.replicate k (0x20 : UInt8) ++ ds).takeWhile (· = 0x20) = List.replicate k 0x20 := by
    rw [List.takeWhile_append_of_pos, takeWhile_digits hdigits, List.append_nil]
    intro c hc
    simp [List.eq_of_mem_replicate hc]
  have hdrop : (List.replicate k (0x20 : UInt8) ++ ds).drop k = ds := List.drop_left' (by simp)
  dsimp only
  rw [hpad, hspaces, List.length_replicate, hdrop]
  have hall : (List.replicate k (0x30 : UInt8) ++ ds).length = 32 := by
    rw [List.length_append, List.length_replicate, hk]
  refine ⟨List.replicate k 0x30 ++ ds, hall, ?_, ?_, ?_⟩
  · refine List.forall_mem_append.mpr ⟨fun c hc => ?_, hdigits⟩
    rw [List.eq_of_mem_replicate hc]
    exact isDigit_zero
  · rw [decNat_append, decNat_zeros, Nat.zero_mul, Nat.zero_add, hnum]
  · rw [List.take_of_length_le]
    · congr 2
      omega
    · rw [List.length_append, List.length_cons, List.length_take, List.length_drop, hall]
      omega

/-- Of more than 32 digits the first 14 are taken for the integer part. -/
lemma bignumToString_large {buf : Bytes} (h : 10 ^ 32 ≤ beNat buf) (hlt : beNat buf < 2 ^ 123) :
    ∃ integer decimals : Bytes, integer.length = 14 ∧ (∀ c ∈ integer, IsDigit c) ∧ (∀ c ∈ decimals, IsDigit c) ∧
      ∃ ret, bignumToString buf 64 = some (integer ++ 0x2e :: decimals, ret) := by
  have hdigits : ∀ c ∈ decText (beNat buf), IsDigit c := fun c hc => isDigit_decText hc
  have hlen : 32 < (decText (beNat buf)).length := by
    by_contra hle
    exact absurd ((decText_length_le_iff (by decide)).mp (not_lt.mp hle)) (not_lt.mpr h)
  rw [bignumToString, mpiWriteString_eq, if_pos hlt, Option.map_some]
  generalize decText (beNat buf) = ds at hdigits hlen ⊢
  have htaken : ∀ c ∈ ds.take 35, IsDigit c := fun c hc => hdigits c (List.mem_of_mem_take hc)
  have hpad : (List.leftpad 32 0x20 ds).take 35 = ds.take 35 := by
    have hsub : 32 - ds.length = 0 := by omega
    rw [List.leftpad, hsub, List.replicate_zero, List.nil_append]
  dsimp only
  rw [hpad, takeWhile_digits htaken, List.length_nil, List.replicate_zero, List.nil_append, List.drop_zero]
  have hcut : ((ds.take 35).take 14 ++ 0x2e :: (ds.take 35).drop 14).length ≤ 63 := by
    rw [List.length_append, List.length_cons, List.length_take, List.length_drop, List.length_take]
    omega
  rw [List.take_of_length_le hcut]
  refine ⟨(ds.take 35).take 14, (ds.take 35).drop 14, ?_, ?_, ?_, _, rfl⟩
  · rw [List.length_take, List.length_take]
    omega
  · exact fun c hc => htaken c (List.mem_of_mem_take hc)
  · exact fun c hc => htaken c (List.mem_of_mem_drop hc)

/-- **The amounts that are formatted exactly**: those of up to 32 digits, and those for which mbedtls wants
a larger buffer. -/
theorem formattedExactly_iff (buf : Bytes) :
    FormattedExactly buf ↔ beNat buf < 10 ^ 32 ∨ 2 ^ 123 ≤ beNat buf := by
  constructor
  · intro hexact
    by_contra hbad
    simp only [not_or, not_lt, not_le] at hbad
    obtain ⟨integer, decimals, hlen, hint, hdec, ret, hresult⟩ := bignumToString_large hbad.1 hbad.2
    obtain ⟨⟨integer', decimals', heq, -, -, hint', -, hval⟩, -⟩ := hexact _ ret hresult
    obtain ⟨rfl, rfl⟩ := point_inj (point_notMem hint) (point_notMem hint') heq
    have hlt := decimalValue_lt hint hdec
    rw [← hval, hlen] at hlt
    have hbig : (10 : ℚ) ^ 32 ≤ beNat buf := by exact_mod_cast hbad.1
    have hle : (10 : ℚ) ^ 14 ≤ (beNat buf : ℚ) / 10 ^ 18 := by
      rw [le_div_iff₀ (by positivity), ← pow_add]
      exact hbig
    exact absurd hlt (not_lt.mpr hle)
  · rintro (hsmall | hlarge) text ret hresult
    · obtain ⟨digits, hlen, hdigits, hnum, heq⟩ := bignumToString_small hsmall
      obtain ⟨rfl, rfl⟩ := Prod.mk.inj (Option.some.inj (heq.symm.trans hresult))
      have hfront : (digits.take 14).length = 14 := by
        rw [List.length_take, hlen]
        rfl
      have hback : (digits.drop 14).length = 18 := by rw [List.length_drop, hlen]
      refine ⟨⟨digits.take 14, digits.drop 14, rfl, ?_, ?_, ?_, ?_, ?_⟩, ?_⟩
      · rw [← List.length_pos_iff, hfront]
        decide
      · rw [← List.length_pos_iff, hback]
        decide
      · exact fun c hc => hdigits c (List.mem_of_mem_take hc)
      · exact fun c hc => hdigits c (List.mem_of_mem_drop hc)
      · rw [decimalValue_eq, List.take_append_drop, hnum, hback]
      · rw [List.length_append, List.length_cons, hfront, hback]
    · rw [bignumToString_eq_none hlarge] at hresult
      cases hresult

/-- **The first number of 33 digits is a tenth of itself**: 10^32 comes out as `10000000000000.` with 19
zeros, and not as 10^14. -/
theorem large_amount_misread :
    beNat (beShort (10 ^ 32)) = 10 ^ 32 ∧ (beShort (10 ^ 32)).length = 14 ∧
      bignumToString (beShort (10 ^ 32)) 64 =
        some ([0x31] ++ List.replicate 13 0x30 ++ 0x2e :: List.replicate 19 0x30, 35) ∧
      ¬ FormattedExactly (beShort (10 ^ 32)) := by
  have hresult : bignumToString (beShort (10 ^ 32)) 64 =
      some ([0x31] ++ List.replicate 13 0x30 ++ 0x2e :: List.replicate 19 0x30, 35) := by decide +kernel
  have hnum := beNat_beShort (10 ^ 32)
  refine ⟨hnum, by decide +kernel, hresult, fun h => ?_⟩
  obtain ⟨⟨integer, decimals, heq, -, -, hint, hdec, hval⟩, -⟩ := h _ _ hresult
  obtain ⟨rfl, rfl⟩ := point_inj (by decide) (point_notMem hint) heq
  have hlt := decimalValue_lt hint hdec
  rw [← hval, hnum] at hlt
  norm_num at hlt

/-! ### There and back -/

/-- A number of 32 digits that is written with its point is read with its point. -/
lemma stringToBignum_pointed {digits : Bytes} (hlen : digits.length = 32) (hdigits : ∀ c ∈ digits, IsDigit c) :
    stringToBignum (digits.take 14 ++ 0x2e :: digits.drop 14) 16 = some (some (beShort (decNat digits))) := by
  have hfront : (digits.take 14).length = 14 := by
    rw [List.length_take, hlen]
    rfl
  have hback : (digits.drop 14).length = 18 := by rw [List.length_drop, hlen]
  have hnone : 0x2e ∉ digits.take 14 := point_notMem fun c hc => hdigits c (List.mem_of_mem_take hc)
  generalize hint : digits.take 14 = integer at hfront hnone ⊢
  generalize hdec : digits.drop 14 = decimals at hback ⊢
  have hall : integer ++ decimals = digits := by rw [← hint, ← hdec, List.take_append_drop]
  have hpoint : (integer ++ 0x2e :: decimals).idxOf? 0x2e = some 14 := hfront ▸ idxOf?_append_cons decimals hnone
  have htake : (integer ++ 0x2e :: decimals).take 14 = integer := List.take_left' hfront
  have hdrop : (integer ++ 0x2e :: decimals).drop (14 + 1) = decimals := by
    rw [← List.drop_drop, List.drop_left' hfront]
    rfl
  -- the decimals are 18, and nothing is filled up
  have hpad : padDecimals 18 decimals = decimals := by
    unfold padDecimals
    rw [hback, Nat.sub_self, List.replicate_zero, List.append_nil, List.take_of_length_le hback.le]
  rw [stringToBignum_point hpoint, if_pos (by decide), show 14 % 2 ^ 32 = 14 from rfl, htake, hdrop, hpad,
    hall, readAmount_digits hdigits]

/-- **An amount comes back from its text**: it is formatted within 64 bytes, also as the digits that
mbedtls writes first, and from the text its shortest bytes are parsed, which fit 16 bytes. -/
theorem amount_comes_back {buf : Bytes} (h : beNat buf < 10 ^ 32) :
    ∃ text ret, bignumToString buf 64 = some (text, ret) ∧
      (decText (beNat buf)).length + 1 ≤ 64 ∧ text.length + 1 ≤ 64 ∧
      stringToBignum text 16 = some (some (beShort (beNat buf))) ∧ (beShort (beNat buf)).length ≤ 16 := by
  obtain ⟨digits, hlen, hdigits, hnum, htext⟩ := bignumToString_small h
  refine ⟨_, _, htext, ?_, ?_, ?_, ?_⟩
  · have hle : (decText (beNat buf)).length ≤ 32 := (decText_length_le_iff (by decide)).mpr h
    omega
  · rw [List.length_append, List.length_cons, List.length_take, List.length_drop, hlen]
    decide
  · rw [stringToBignum_pointed hlen hdigits, hnum]
  · refine beShort_length_le_iff.mpr (h.trans ?_)
    norm_num

/-- 1.5 · 10^18, behind two zeros. -/
theorem amount_comes_back_half : ∃ text ret,
    bignumToString (0 :: 0 :: beShort (15 * 10 ^ 17)) 64 = some (text, ret) ∧
      (decText (beNat (0 :: 0 :: beShort (15 * 10 ^ 17)))).length + 1 ≤ 64 ∧ text.length + 1 ≤ 64 ∧
      stringToBignum text 16 = some (some (beShort (beNat (0 :: 0 :: beShort (15 * 10 ^ 17))))) ∧
      (beShort (beNat (0 :: 0 :: beShort (15 * 10 ^ 17)))).length ≤ 16 :=
  amount_comes_back (by decide +kernel)

end Libaergo
