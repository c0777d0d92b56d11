import Libaergo.Address
import Libaergo.Lib.Radix

/-!
# The numbers behind addresses (`base58.c`, `account.c`)

`b58tobin` is the conversion of a base58 numeral to 38 bytes, for the numerals whose number fits
(`b58tobin_eq`).  The size it reports has the leading ones on top of the bytes that count, and may be
larger than the buffer: the texts for which it is not are those of `reportsInside_iff`.
-/

namespace Libaergo

open Lib

/-! ### The number behind a text -/

/-- The number that a text denotes, if all its characters are digits. -/
def b58number (text : Bytes) : Option ℕ := (text.mapM b58digit).map (radixNat 58)

/-- `zerocount` before it is cut to an `unsigned`. -/
def leadingOnes (text : Bytes) : ℕ := (text.takeWhile (· = charOne)).length

lemma b58digit_charOne : b58digit charOne = some 0 := by decide

lemma b58digit_lt {c : UInt8} {d : ℕ} (h : b58digit c = some d) : d < 58 := by
  have hall : ∀ n < 256, ∀ d ∈ b58digit (UInt8.ofNat n), d < 58 := by decide +kernel
  refine hall c.toNat c.toNat_lt d ?_
  rwa [UInt8.ofNat_toNat]

section Words

variable {ws : List ℕ} {c : ℕ}

/-- **One digit more**: every word is multiplied with its carry, and the carries are less than 58. -/
lemma mulAddWords_spec (hws : ∀ w ∈ ws, w < 2 ^ 32) (hc : c < 58) :
    (mulAddWords ws c).1.length = ws.length ∧ (∀ w ∈ (mulAddWords ws c).1, w < 2 ^ 32) ∧
      (mulAddWords ws c).2 < 58 ∧
      radixNat (2 ^ 32) ws * 58 + c =
        (mulAddWords ws c).2 * (2 ^ 32) ^ ws.length + radixNat (2 ^ 32) (mulAddWords ws c).1 := by
  induction ws with
  | nil =>
    refine ⟨rfl, fun w hw => absurd hw List.not_mem_nil, hc, ?_⟩
    simp [mulAddWords]
  | cons w ws ih =>
    obtain ⟨hlen, hsmall, hcarry, hval⟩ := ih fun x hx => hws x (List.mem_cons_of_mem w hx)
    have hw := hws w List.mem_cons_self
    rw [mulAddWords]
    generalize mulAddWords ws c = rest at hlen hsmall hcarry hval ⊢
    obtain ⟨ws', c'⟩ := rest
    dsimp only at hlen hsmall hcarry hval ⊢
    have hmod : (w * 58 + c') / 2 ^ 32 % 64 = (w * 58 + c') / 2 ^ 32 := Nat.mod_eq_of_lt (by omega)
    have hsplit : ∀ P : ℕ, (w * 58 + c') * P =
        (w * 58 + c') / 2 ^ 32 * (P * 2 ^ 32) + (w * 58 + c') % 2 ^ 32 * P := by
      intro P
      conv_lhs => rw [← Nat.div_add_mod (w * 58 + c') (2 ^ 32)]
      ring
    rw [hmod]
    refine ⟨by rw [List.length_cons, hlen, List.length_cons], ?_, by omega, ?_⟩
    · exact List.forall_mem_cons.mpr ⟨Nat.mod_lt _ (by decide), hsmall⟩
    · rw [radixNat_cons, radixNat_cons, List.length_cons, hlen, pow_succ (2 ^ 32) ws.length]
      calc (w * (2 ^ 32) ^ ws.length + radixNat (2 ^ 32) ws) * 58 + c
          = w * 58 * (2 ^ 32) ^ ws.length + (radixNat (2 ^ 32) ws * 58 + c) := by ring
        _ = (w * 58 + c') * (2 ^ 32) ^ ws.length + radixNat (2 ^ 32) ws' := by rw [hval]; ring
        _ = _ := by rw [hsplit, Nat.add_assoc]

lemma zeromask_eq_zero {w : ℕ} (h : w < 2 ^ 32) : w &&& 0xffff0000 = 0 ↔ w < 2 ^ 16 := by
  have hmask : (0xffff0000 : ℕ) = (2 ^ 16 - 1) <<< 16 := rfl
  have hshift : w &&& 0xffff0000 = (w / 2 ^ 16) <<< 16 := by
    apply Nat.eq_of_testBit_eq
    intro i
    rw [hmask, Nat.testBit_and, Nat.testBit_shiftLeft, Nat.testBit_shiftLeft, Nat.testBit_two_pow_sub_one,
      Nat.testBit_div_two_pow]
    by_cases hi : 16 ≤ i
    · rw [Nat.sub_add_cancel hi]
      by_cases hlt : i - 16 < 16
      · simp [hi, hlt]
      · have hzero : w.testBit i = false :=
          Nat.testBit_lt_two_pow (h.trans_le (Nat.pow_le_pow_right (by decide) (by omega)))
        simp [hzero]
    · simp [hi]
  rw [hshift, Nat.shiftLeft_eq]
  omega

/-- The ten words hold a number of 38 bytes. -/
structure Words (outi : List ℕ) : Prop where
  length : outi.length = 10
  small : ∀ w ∈ outi, w < 2 ^ 32
  fits : radixNat (2 ^ 32) outi < 256 ^ 38

lemma radixNat_words_lt_iff {outi : List ℕ} (hlen : outi.length = 10) (hsmall : ∀ w ∈ outi, w < 2 ^ 32) :
    radixNat (2 ^ 32) outi < 256 ^ 38 ↔ outi.headD 0 &&& 0xffff0000 = 0 := by
  cases outi with
  | nil => cases hlen
  | cons w ws =>
    rw [List.length_cons, Nat.succ_inj] at hlen
    have hrest := radixNat_lt (b := 2 ^ 32) (by decide) fun x hx => hsmall x (List.mem_cons_of_mem w hx)
    have hpow : (256 : ℕ) ^ 38 = 2 ^ 16 * (2 ^ 32) ^ 9 := by norm_num
    rw [List.headD_cons, zeromask_eq_zero (hsmall w List.mem_cons_self), radixNat_cons, hpow]
    rw [hlen] at hrest ⊢
    generalize (2 ^ 32) ^ 9 = P at hrest ⊢
    constructor
    · intro hlt
      by_contra hw
      have hle : 2 ^ 16 * P ≤ w * P := Nat.mul_le_mul_right _ (not_lt.mp hw)
      omega
    · intro hw
      have hle : (w + 1) * P ≤ 2 ^ 16 * P := Nat.mul_le_mul_right _ hw
      rw [Nat.add_mul, Nat.one_mul] at hle
      omega

variable {outi outi' : List ℕ} {text : Bytes}

lemma Words.digit (h : Words outi) {d : ℕ} (hd : d < 58) (cs : Bytes) {c : UInt8}
    (hc : b58digit c = some d) :
    if radixNat (2 ^ 32) outi * 58 + d < 256 ^ 38 then
      ∃ outi', Words outi' ∧ radixNat (2 ^ 32) outi' = radixNat (2 ^ 32) outi * 58 + d ∧
        b58digitsLoop 0xffff0000 (c :: cs) outi = b58digitsLoop 0xffff0000 cs outi'
    else b58digitsLoop 0xffff0000 (c :: cs) outi = none := by
  obtain ⟨hlen, hsmall, -, hval⟩ := mulAddWords_spec h.small hd
  rw [b58digitsLoop, hc]
  dsimp only
  generalize mulAddWords outi d = res at hlen hsmall hval ⊢
  obtain ⟨outi', carry⟩ := res
  dsimp only at hlen hsmall hval ⊢
  rw [h.length] at hlen hval
  by_cases hcarry : carry = 0
  · rw [hcarry, Nat.zero_mul, Nat.zero_add] at hval
    have hiff := radixNat_words_lt_iff hlen hsmall
    rw [hval]
    by_cases hfit : radixNat (2 ^ 32) outi' < 256 ^ 38
    · rw [if_pos hfit, if_neg (not_not.mpr hcarry), if_neg (not_not.mpr (hiff.mp hfit))]
      exact ⟨outi', ⟨hlen, hsmall, hfit⟩, rfl, rfl⟩
    · rw [if_neg hfit, if_neg (not_not.mpr hcarry), if_pos fun hzero => hfit (hiff.mpr hzero)]
  · have hle : 1 * (2 ^ 32) ^ 10 ≤ carry * (2 ^ 32) ^ 10 :=
      Nat.mul_le_mul_right _ (Nat.one_le_iff_ne_zero.mpr hcarry)
    have hbig : (256 : ℕ) ^ 38 ≤ 1 * (2 ^ 32) ^ 10 := by norm_num
    have hover : ¬ radixNat (2 ^ 32) outi * 58 + d < 256 ^ 38 := by
      rw [hval]
      exact not_lt.mpr (hbig.trans (hle.trans (Nat.le_add_right _ _)))
    rw [if_neg hover, if_pos hcarry]

/-- **All digits**: what comes out is the number of the text behind what stood there. -/
lemma Words.digits (h : Words outi) (hloop : b58digitsLoop 0xffff0000 text outi = some outi') :
    Words outi' ∧ ∃ ds, text.mapM b58digit = some ds ∧
      radixNat (2 ^ 32) outi' = radixNat (2 ^ 32) outi * 58 ^ ds.length + radixNat 58 ds := by
  induction text generalizing outi with
  | nil =>
    obtain rfl := Option.some.inj hloop
    exact ⟨h, [], rfl, by simp⟩
  | cons c cs ih =>
    cases hc : b58digit c with
    | none =>
      rw [b58digitsLoop, hc] at hloop
      cases hloop
    | some d =>
      have hstep := h.digit (b58digit_lt hc) cs hc
      split at hstep
      · obtain ⟨outi₁, h₁, hval, heq⟩ := hstep
        rw [heq] at hloop
        obtain ⟨h', ds, hds, hval'⟩ := ih h₁ hloop
        refine ⟨h', d :: ds, ?_, ?_⟩
        · rw [List.mapM_cons, hc, hds]
          rfl
        · rw [hval', hval, radixNat_cons, List.length_cons, pow_succ 58 ds.length]
          ring
      · rw [hstep] at hloop
        cases hloop

lemma Words.digits_isSome (h : Words outi) {ds : List ℕ} (hds : text.mapM b58digit = some ds)
    (hfit : radixNat (2 ^ 32) outi * 58 ^ ds.length + radixNat 58 ds < 256 ^ 38) :
    ∃ outi', b58digitsLoop 0xffff0000 text outi = some outi' := by
  induction text generalizing outi ds with
  | nil => exact ⟨outi, rfl⟩
  | cons c cs ih =>
    rw [List.mapM_cons] at hds
    obtain ⟨d, hc, hds⟩ := Option.bind_eq_some_iff.mp hds
    obtain ⟨ds', hds', hcons⟩ := Option.bind_eq_some_iff.mp hds
    obtain rfl := Option.some.inj hcons
    have hstep := h.digit (b58digit_lt hc) cs hc
    have hexp : radixNat (2 ^ 32) outi * 58 ^ (d :: ds').length + radixNat 58 (d :: ds') =
        (radixNat (2 ^ 32) outi * 58 + d) * 58 ^ ds'.length + radixNat 58 ds' := by
      rw [radixNat_cons, List.length_cons, pow_succ 58 ds'.length]
      ring
    rw [hexp] at hfit
    have hpow : 1 ≤ 58 ^ ds'.length := Nat.one_le_pow _ _ (by decide)
    have hle : radixNat (2 ^ 32) outi * 58 + d ≤ (radixNat (2 ^ 32) outi * 58 + d) * 58 ^ ds'.length :=
      Nat.le_mul_of_pos_right _ hpow
    rw [if_pos (lt_of_le_of_lt (hle.trans (Nat.le_add_right _ _)) hfit)] at hstep
    obtain ⟨outi₁, h₁, hval, heq⟩ := hstep
    rw [← hval] at hfit
    rw [heq]
    exact ih h₁ hds' hfit

lemma beNat_flatMap_words (hws : ∀ w ∈ ws, w < 2 ^ 32) :
    (ws.flatMap (beBytes 4)).length = 4 * ws.length ∧
      beNat (ws.flatMap (beBytes 4)) = radixNat (2 ^ 32) ws := by
  induction ws with
  | nil => exact ⟨rfl, rfl⟩
  | cons w ws ih =>
    obtain ⟨hlen, hval⟩ := ih fun x hx => hws x (List.mem_cons_of_mem w hx)
    have hpow : (256 : ℕ) ^ (4 * ws.length) = (2 ^ 32) ^ ws.length := by
      rw [pow_mul]
      norm_num
    rw [List.flatMap_cons, List.length_append, beBytes_length, beNat_append, beNat_beBytes, hlen, hval, hpow,
      radixNat_cons, Nat.mod_eq_of_lt (show w < 256 ^ 4 from hws w List.mem_cons_self), List.length_cons]
    exact ⟨by ring, rfl⟩

lemma Words.bytes (h : Words outi) :
    beBytes 2 (outi.headD 0) ++ outi.tail.flatMap (beBytes 4) = beBytes 38 (radixNat (2 ^ 32) outi) := by
  obtain ⟨hlen, hsmall, hfit⟩ := h
  have hhead := (radixNat_words_lt_iff hlen hsmall).mp hfit
  cases outi with
  | nil => cases hlen
  | cons w ws =>
    rw [List.headD_cons, zeromask_eq_zero (hsmall w List.mem_cons_self)] at hhead
    rw [List.length_cons, Nat.succ_inj] at hlen
    obtain ⟨hrest, hval⟩ := beNat_flatMap_words fun x hx => hsmall x (List.mem_cons_of_mem w hx)
    have hpow : (256 : ℕ) ^ (4 * ws.length) = (2 ^ 32) ^ ws.length := by
      rw [pow_mul]
      norm_num
    rw [List.headD_cons, List.tail_cons]
    apply beNat_inj
    · rw [List.length_append, beBytes_length, beBytes_length, hrest, hlen]
    · rw [beNat_append, beNat_beBytes, beNat_beBytes, hval, hrest, hpow, Nat.mod_eq_of_lt hfit, radixNat_cons,
        Nat.mod_eq_of_lt (show w < 256 ^ 2 from hhead)]

end Words

section Text

variable {text : Bytes}

lemma b58number_eq_some {n : ℕ} (h : b58number text = some n) :
    ∃ ds, text.mapM b58digit = some ds ∧ radixNat 58 ds = n := Option.map_eq_some_iff.mp h

lemma b58number_cons {c : UInt8} {d : ℕ} (cs : Bytes) (hc : b58digit c = some d) :
    b58number (c :: cs) = (cs.mapM b58digit).map fun ds => d * 58 ^ ds.length + radixNat 58 ds := by
  unfold b58number
  rw [List.mapM_cons, hc]
  cases cs.mapM b58digit with
  | none => rfl
  | some ds => exact congrArg some (radixNat_cons 58 d ds)

lemma b58number_drop (text : Bytes) : b58number (text.drop (leadingOnes text)) = b58number text := by
  induction text with
  | nil => rfl
  | cons c cs ih =>
    unfold leadingOnes
    by_cases hc : c = charOne
    · have hone : b58number (c :: cs) = b58number cs := by
        rw [hc, b58number_cons cs b58digit_charOne]
        simp only [Nat.zero_mul, Nat.zero_add]
        rfl
      rw [List.takeWhile_cons_of_pos (by simpa using hc), List.length_cons, List.drop_succ_cons, hone]
      exact ih
    · rw [List.takeWhile_cons_of_neg (by simpa using hc), List.length_nil, List.drop_zero]

/-- **What `b58tobin` makes of a text.** -/
lemma b58tobin_eq (text : Bytes) :
    b58tobin 38 text = (b58number text).bind fun n =>
      if n < 256 ^ 38 then some (beBytes 38 n, (beShort n).length + leadingOnes text % 2 ^ 32) else none := by
  have hstart : Words (List.replicate 10 0) := by
    refine ⟨rfl, fun w hw => ?_, ?_⟩
    · rw [List.eq_of_mem_replicate hw]
      decide
    · decide +kernel
  have hzero : radixNat (2 ^ 32) (List.replicate 10 0) = 0 := by decide +kernel
  have hloop : b58tobin 38 text =
      (b58digitsLoop 0xffff0000 (text.drop (leadingOnes text)) (List.replicate 10 0)).map fun outi =>
        (beBytes 2 (outi.headD 0) ++ outi.tail.flatMap (beBytes 4),
          ((beBytes 2 (outi.headD 0) ++ outi.tail.flatMap (beBytes 4)).dropWhile (· = 0)).length +
            leadingOnes text % 2 ^ 32) := rfl
  rw [hloop, ← b58number_drop text]
  generalize text.drop (leadingOnes text) = rest
  cases hrun : b58digitsLoop 0xffff0000 rest (List.replicate 10 0) with
  | some outi =>
    obtain ⟨hwords, ds, hds, hval⟩ := hstart.digits hrun
    rw [hzero, Nat.zero_mul, Nat.zero_add] at hval
    have hnum : b58number rest = some (radixNat (2 ^ 32) outi) := by
      rw [b58number, hds, hval]
      rfl
    rw [hnum, Option.map_some, Option.bind_some, if_pos hwords.fits, hwords.bytes, dropWhile_eq_beShort,
      beNat_beBytes, Nat.mod_eq_of_lt hwords.fits]
  | none =>
    rw [Option.map_none]
    cases hnum : b58number rest with
    | none => rfl
    | some n =>
      obtain ⟨ds, hds, rfl⟩ := b58number_eq_some hnum
      rw [Option.bind_some, if_neg]
      intro hfit
      obtain ⟨outi, hsome⟩ := hstart.digits_isSome hds (by rwa [hzero, Nat.zero_mul, Nat.zero_add])
      rw [hrun] at hsome
      cases hsome

end Text

/-! ### The size that is reported -/

/-- **The reported size is within the buffer**: `b58check` gets at most the 38 bytes of `decoded` to take
the checksum of and to compare it with. -/
def ReportsInside (text : Bytes) : Prop :=
  ∀ decoded decsize, b58tobin (addressLength + 1 + 4) text = some (decoded, decsize) →
    decsize ≤ addressLength + 1 + 4

/-- **The texts with a size within the buffer**: those that are no number or one of more than 38 bytes,
which are refused, and those whose leading ones find room beside the bytes that count. -/
theorem reportsInside_iff (text : Bytes) :
    ReportsInside text ↔ ∀ n, b58number text = some n → n < 256 ^ 38 →
      leadingOnes text % 2 ^ 32 ≤ 38 ∧ n < 256 ^ (38 - leadingOnes text % 2 ^ 32) := by
  have hsum : ∀ n z : ℕ, (beShort n).length + z ≤ 38 ↔ z ≤ 38 ∧ n < 256 ^ (38 - z) := by
    intro n z
    rw [← beShort_length_le_iff]
    omega
  unfold ReportsInside
  show (∀ decoded decsize, b58tobin 38 text = some (decoded, decsize) → decsize ≤ 38) ↔ _
  rw [b58tobin_eq]
  cases hnum : b58number text with
  | none =>
    constructor
    · intro _ n hn
      cases hn
    · intro _ decoded decsize h
      cases h
  | some n =>
    rw [Option.bind_some]
    by_cases hfit : n < 256 ^ 38
    · rw [if_pos hfit]
      constructor
      · intro h m hm _
        obtain rfl := Option.some.inj hm
        exact (hsum _ _).mp (h _ _ rfl)
      · intro h decoded decsize heq
        obtain ⟨-, rfl⟩ := Prod.mk.inj (Option.some.inj heq)
        exact (hsum _ _).mpr (h n rfl hfit)
    · rw [if_neg hfit]
      constructor
      · intro _ m hm hlt
        obtain rfl := Option.some.inj hm
        exact absurd hlt hfit
      · intro _ decoded decsize h
        cases h

/-- **A text of ones** is the number 0 and has a size of its length: 52 for 52 of them. -/
theorem ones_reported_outside :
    b58tobin 38 (List.replicate 52 charOne) = some (List.replicate 38 0, 52) ∧
      ¬ ReportsInside (List.replicate 52 charOne) := by
  have hresult : b58tobin 38 (List.replicate 52 charOne) = some (List.replicate 38 0, 52) := by
    decide +kernel
  refine ⟨hresult, fun h => ?_⟩
  have hle := h _ _ hresult
  exact absurd hle (by decide)

/-! ### Writing an address -/

/-- `123456789ABCDEFGHJKLMNPQRSTUVWXYZabcdefghijkmnopqrstuvwxyz` -/
def b58digitsOrdered : Bytes :=
  [0x31, 0x32, 0x33, 0x34, 0x35, 0x36, 0x37, 0x38, 0x39, 0x41, 0x42, 0x43, 0x44, 0x45, 0x46, 0x47,
   0x48, 0x4a, 0x4b, 0x4c, 0x4d, 0x4e, 0x50, 0x51, 0x52, 0x53, 0x54, 0x55, 0x56, 0x57, 0x58, 0x59,
   0x5a, 0x61, 0x62, 0x63, 0x64, 0x65, 0x66, 0x67, 0x68, 0x69, 0x6a, 0x6b, 0x6d, 0x6e, 0x6f, 0x70,
   0x71, 0x72, 0x73, 0x74, 0x75, 0x76, 0x77, 0x78, 0x79, 0x7a]

/-- The inner loop of `b58enc` over the digits from the last to the first: each times 256 and the carry
behind it, for the `written` last digits and as long as there is a carry; and how many they were.  Behind
the first digit `j` wraps, is above `high`, and the loop leaves the buffer. -/
def b58encByte : ℕ → ℕ → List ℕ → Option (List ℕ × ℕ)
  | _, _, [] => none
  | written, carry, d :: ds =>
    if 0 < written ∨ carry ≠ 0 then
      let carry := carry + 256 * d
      (b58encByte (written - 1) (carry / 58) ds).map fun (ds, written) => (carry % 58 :: ds, written + 1)
    else some (d :: ds, 0)

/-- The outer loop over the bytes behind the leading zeros. -/
def b58encLoop : Bytes → List ℕ → ℕ → Option (List ℕ)
  | [], buf, _ => some buf
  | b :: bs, buf, written => (b58encByte written b.toNat buf).bind fun (buf, written) => b58encLoop bs buf written

/-- `b58enc`: the text with its null byte, or `some none` where the output is too small; none where the
digits leave their buffer. -/
def b58enc (b58sz : ℕ) (bin : Bytes) : Option (Option Bytes) :=
  let zcount := (bin.takeWhile (· = 0)).length
  let size := (bin.length - zcount) * 138 / 100 + 1
  (b58encLoop (bin.drop zcount) (List.replicate size 0) 0).map fun buf =>
    let digits := buf.reverse.dropWhile (· = 0)
    if b58sz ≤ zcount + digits.length then none
    else some (List.replicate zcount charOne ++ digits.map (fun d => b58digitsOrdered.getD d 0) ++ [0])

def b58checkEnc (sha256 : Bytes → Hash) (b58cSz : ℕ) (ver : UInt8) (data : Bytes) : Option (Option Bytes) :=
  b58enc b58cSz (ver :: data ++ (myDblsha256 sha256 (ver :: data)).toList.take 4)

def encodeAddress (sha256 : Bytes → Hash) (data : Bytes) (outsize : ℕ) : Option (Option Bytes) :=
  b58checkEnc sha256 outsize 0x42 data

/-! ### The digits of a number -/

section Digits

variable {ds : List ℕ} {written carry k : ℕ}

/-- **One byte more**: the digits are those of 256 times the number and the byte, and as far as the
number reaches they were written. -/
lemma b58encByte_spec (hds : ∀ d ∈ ds, d < 58) (hrest : ∀ d ∈ ds.drop written, d = 0)
    (hwritten : written ≤ k) (hk : k < ds.length) (hfit : Nat.ofDigits 58 ds * 256 + carry < 58 ^ k) :
    ∃ ds' written', b58encByte written carry ds = some (ds', written') ∧ ds'.length = ds.length ∧
      (∀ d ∈ ds', d < 58) ∧ (∀ d ∈ ds'.drop written', d = 0) ∧ written' ≤ k ∧
      Nat.ofDigits 58 ds' = Nat.ofDigits 58 ds * 256 + carry := by
  induction ds generalizing written carry k with
  | nil => exact absurd hk (Nat.not_lt_zero k)
  | cons d ds ih =>
    rw [b58encByte]
    by_cases hgo : 0 < written ∨ carry ≠ 0
    · rw [if_pos hgo]
      dsimp only
      have hkpos : 0 < k := by
        rcases hgo with h | h
        · omega
        · by_contra h0
          obtain rfl : k = 0 := by omega
          rw [pow_zero] at hfit
          omega
      obtain ⟨k, rfl⟩ : ∃ j, k = j + 1 := ⟨k - 1, by omega⟩
      have hsplit := Nat.div_add_mod (carry + 256 * d) 58
      rw [Nat.ofDigits_cons, pow_succ] at hfit
      have hnext : Nat.ofDigits 58 ds * 256 + (carry + 256 * d) / 58 < 58 ^ k := by
        refine Nat.lt_of_mul_lt_mul_left (a := 58) ?_
        calc 58 * (Nat.ofDigits 58 ds * 256 + (carry + 256 * d) / 58)
            = Nat.ofDigits 58 ds * 256 * 58 + 58 * ((carry + 256 * d) / 58) := by ring
          _ ≤ Nat.ofDigits 58 ds * 256 * 58 + (carry + 256 * d) :=
            Nat.add_le_add_left (Nat.mul_div_le _ _) _
          _ = (d + 58 * Nat.ofDigits 58 ds) * 256 + carry := by ring
          _ < 58 ^ k * 58 := hfit
          _ = 58 * 58 ^ k := Nat.mul_comm _ _
      have hrest' : ∀ e ∈ ds.drop (written - 1), e = 0 := by
        cases written with
        | zero =>
          intro e he
          exact hrest e (List.mem_cons_of_mem d (List.mem_of_mem_drop he))
        | succ w => exact hrest
      obtain ⟨ds', written', heq, hlen, hsmall, hzeros, hle, hval⟩ :=
        ih (fun e he => hds e (List.mem_cons_of_mem d he)) hrest' (show written - 1 ≤ k by omega)
          (by rw [List.length_cons] at hk; omega)
          hnext
      rw [heq]
      refine ⟨_, _, rfl, ?_, ?_, hzeros, Nat.succ_le_succ hle, ?_⟩
      · rw [List.length_cons, hlen, List.length_cons]
      · exact List.forall_mem_cons.mpr ⟨Nat.mod_lt _ (by decide), hsmall⟩
      · rw [Nat.ofDigits_cons, Nat.ofDigits_cons, hval]
        omega
    · obtain ⟨hw, hc⟩ := not_or.mp hgo
      obtain rfl : written = 0 := by omega
      obtain rfl : carry = 0 := not_not.mp hc
      rw [if_neg hgo]
      refine ⟨_, _, rfl, rfl, hds, hrest, Nat.zero_le k, ?_⟩
      have hzero : Nat.ofDigits 58 (d :: ds) = 0 := by
        have hall : (d :: ds) = List.replicate (d :: ds).length 0 := List.eq_replicate_iff.mpr ⟨rfl, hrest⟩
        rw [hall, Nat.ofDigits_replicate_zero]
      rw [hzero]

lemma b58encLoop_spec {bs : Bytes} (hds : ∀ d ∈ ds, d < 58) (hrest : ∀ d ∈ ds.drop written, d = 0)
    (hwritten : written ≤ k) (hk : k < ds.length)
    (hfit : Nat.ofDigits 58 ds * 256 ^ bs.length + beNat bs < 58 ^ k) :
    ∃ ds', b58encLoop bs ds written = some ds' ∧ (∀ d ∈ ds', d < 58) ∧
      Nat.ofDigits 58 ds' = Nat.ofDigits 58 ds * 256 ^ bs.length + beNat bs := by
  induction bs generalizing ds written with
  | nil =>
    refine ⟨ds, rfl, hds, ?_⟩
    simp [beNat, leNat]
  | cons b bs ih =>
    have hexp : Nat.ofDigits 58 ds * 256 ^ (b :: bs).length + beNat (b :: bs) =
        (Nat.ofDigits 58 ds * 256 + b.toNat) * 256 ^ bs.length + beNat bs := by
      rw [beNat_cons, List.length_cons, pow_succ]
      ring
    rw [hexp] at hfit ⊢
    have hle : Nat.ofDigits 58 ds * 256 + b.toNat ≤ (Nat.ofDigits 58 ds * 256 + b.toNat) * 256 ^ bs.length :=
      Nat.le_mul_of_pos_right _ (by positivity)
    obtain ⟨ds₁, written₁, heq, hlen, hsmall, hzeros, hw, hval⟩ :=
      b58encByte_spec hds hrest hwritten hk (lt_of_le_of_lt (hle.trans (Nat.le_add_right _ _)) hfit)
    rw [← hval] at hfit ⊢
    obtain ⟨ds', hrun, hsmall', hval'⟩ := ih hsmall hzeros hw (hlen ▸ hk) hfit
    refine ⟨ds', ?_, hsmall', hval'⟩
    rw [b58encLoop, heq, Option.bind_some]
    exact hrun

end Digits

/-! ### Digits and characters -/

def b58char (d : ℕ) : UInt8 := b58digitsOrdered.getD d 0

lemma b58digit_b58char {d : ℕ} (h : d < 58) : b58digit (b58char d) = some d := by
  have hall : ∀ d < 58, b58digit (b58char d) = some d := by decide +kernel
  exact hall d h

lemma b58char_of_digit {c : UInt8} {d : ℕ} (h : b58digit c = some d) : b58char d = c := by
  have hall : ∀ n < 256, ∀ d ∈ b58digit (UInt8.ofNat n), b58char d = UInt8.ofNat n := by decide +kernel
  have hc := hall c.toNat c.toNat_lt d
  rw [UInt8.ofNat_toNat] at hc
  exact hc h

lemma b58char_mem {d : ℕ} (h : d < 58) : b58char d ∈ b58digitsOrdered := by
  have hall : ∀ d < 58, b58char d ∈ b58digitsOrdered := by decide +kernel
  exact hall d h

lemma mapM_b58char {ds : List ℕ} (h : ∀ d ∈ ds, d < 58) : (ds.map b58char).mapM b58digit = some ds := by
  induction ds with
  | nil => rfl
  | cons d ds ih =>
    rw [List.map_cons, List.mapM_cons, b58digit_b58char (h d List.mem_cons_self),
      ih fun e he => h e (List.mem_cons_of_mem d he)]
    rfl

lemma eq_of_mapM_b58digit {text : Bytes} {ds : List ℕ} (h : text.mapM b58digit = some ds) :
    text = ds.map b58char ∧ ∀ d ∈ ds, d < 58 := by
  induction text generalizing ds with
  | nil =>
    obtain rfl := Option.some.inj h
    exact ⟨rfl, fun d hd => absurd hd List.not_mem_nil⟩
  | cons c cs ih =>
    rw [List.mapM_cons] at h
    obtain ⟨d, hc, h⟩ := Option.bind_eq_some_iff.mp h
    obtain ⟨ds', hds', hcons⟩ := Option.bind_eq_some_iff.mp h
    obtain rfl := Option.some.inj hcons
    obtain ⟨rfl, hsmall⟩ := ih hds'
    rw [List.map_cons, b58char_of_digit hc]
    exact ⟨rfl, List.forall_mem_cons.mpr ⟨b58digit_lt hc, hsmall⟩⟩

/-- Digits without zeros in front are a text without ones in front. -/
lemma leadingOnes_eq_zero {text : Bytes} (h : text.head? ≠ some charOne) : leadingOnes text = 0 := by
  cases text with
  | nil => rfl
  | cons c cs =>
    have hc : c ≠ charOne := fun hc => h (by rw [List.head?_cons, hc])
    unfold leadingOnes
    rw [List.takeWhile_cons_of_neg (by simpa using hc), List.length_nil]

lemma head?_b58char {ds : List ℕ} (h : ∀ d ∈ ds, d < 58) :
    (ds.map b58char).head? = some charOne ↔ ds.head? = some 0 := by
  cases ds with
  | nil => simp
  | cons d ds =>
    have hd := h d List.mem_cons_self
    rw [List.map_cons, List.head?_cons, List.head?_cons, Option.some.injEq, Option.some.injEq]
    constructor
    · intro hone
      have hdig := b58digit_b58char hd
      rw [hone, b58digit_charOne] at hdig
      exact (Option.some.inj hdig).symm
    · rintro rfl
      rfl

/-! ### The bytes of an address -/

section Codec

variable {sha256 : Bytes → Hash} {stack : ℕ → UInt8} {bin text : Bytes}

/-- The bytes that are written as a text: version, address and checksum. -/
def addressBytes (sha256 : Bytes → Hash) (data : Bytes) : Bytes :=
  0x42 :: data ++ (myDblsha256 sha256 (0x42 :: data)).toList.take 4

lemma addressBytes_length {data : Bytes} (h : data.length = 33) : (addressBytes sha256 data).length = 38 := by
  rw [addressBytes, List.length_append, List.length_cons, h, List.length_take, Vector.length_toList]
  rfl

lemma addressBytes_getD {a : Address} {i : ℕ} (hi : i < 33) :
    (addressBytes sha256 a.toList).getD (1 + i) 0 = a[i] := by
  have hlt : i < a.toList.length := by rwa [Vector.length_toList]
  rw [addressBytes, List.cons_append, Nat.add_comm, List.getD_cons_succ, List.getD_eq_getElem?_getD,
    List.getElem?_append_left hlt, List.getElem?_eq_getElem hlt, Option.getD_some, Vector.getElem_toList]

/-- 38 bytes with the version in front have a number of 52 digits. -/
lemma beNat_version (hlen : bin.length = 38) (hhead : bin.head? = some 0x42) :
    58 ^ 51 ≤ beNat bin ∧ beNat bin < 58 ^ 52 := by
  cases bin with
  | nil => cases hlen
  | cons b bs =>
    obtain rfl : b = 0x42 := Option.some.inj hhead
    rw [List.length_cons, Nat.succ_inj] at hlen
    have hrest := beNat_lt bs
    have hver : UInt8.toNat 0x42 = 66 := rfl
    rw [beNat_cons, hver]
    rw [hlen] at hrest ⊢
    have hlo : 58 ^ 51 ≤ 66 * 256 ^ 37 := by norm_num
    have hhi : 67 * 256 ^ 37 ≤ 58 ^ 52 := by norm_num
    generalize 58 ^ 51 = lo at hlo ⊢
    generalize 58 ^ 52 = hi at hhi ⊢
    generalize 256 ^ 37 = P at *
    omega

/-- **The text of 38 bytes**: it has 52 digits. -/
lemma b58enc_version (hlen : bin.length = 38) (hhead : bin.head? = some 0x42) {b58sz : ℕ} (hsz : 53 ≤ b58sz) :
    ∃ ds : List ℕ, ds.length = 52 ∧ (∀ d ∈ ds, d < 58) ∧ ds.head? ≠ some 0 ∧ radixNat 58 ds = beNat bin ∧
      b58enc b58sz bin = some (some (ds.map b58char ++ [0])) := by
  obtain ⟨hlo, hhi⟩ := beNat_version hlen hhead
  have hz : bin.takeWhile (· = 0) = [] := by
    cases bin with
    | nil => rfl
    | cons b bs =>
      obtain rfl : b = 0x42 := Option.some.inj hhead
      exact List.takeWhile_cons_of_neg (by decide)
  have hzero : Nat.ofDigits 58 (List.replicate 53 0) = 0 := Nat.ofDigits_replicate_zero
  have hspec : ∃ buf, b58encLoop bin (List.replicate 53 0) 0 = some buf ∧ (∀ d ∈ buf, d < 58) ∧
      Nat.ofDigits 58 buf = Nat.ofDigits 58 (List.replicate 53 0) * 256 ^ bin.length + beNat bin := by
    refine b58encLoop_spec (k := 52) (fun d hd => ?_) (fun d hd => ?_) (Nat.zero_le 52) (by decide) ?_
    · rw [List.eq_of_mem_replicate hd]
      decide
    · exact List.eq_of_mem_replicate hd
    · rwa [hzero, Nat.zero_mul, Nat.zero_add]
  obtain ⟨buf, hrun, hsmall, hval⟩ := hspec
  rw [hzero, Nat.zero_mul, Nat.zero_add] at hval
  have hdigits : ∀ d ∈ buf.reverse.dropWhile (· = 0), d < 58 := by
    intro d hd
    exact hsmall d (List.mem_reverse.mp ((List.dropWhile_suffix _).subset hd))
  have hhd := head?_dropWhile_ne_zero buf.reverse
  have hnum : radixNat 58 (buf.reverse.dropWhile (· = 0)) = beNat bin := by
    rw [radixNat_dropWhile, radixNat, List.reverse_reverse, hval]
  have hlength : (buf.reverse.dropWhile (· = 0)).length = 52 := by
    have hle := radixNat_length_le_iff (by decide) hdigits hhd (k := 52)
    have hlt := radixNat_length_le_iff (by decide) hdigits hhd (k := 51)
    rw [hnum] at hle hlt
    have h52 := hle.mpr hhi
    have h51 : ¬ (buf.reverse.dropWhile (· = 0)).length ≤ 51 := fun h => absurd (hlt.mp h) (not_lt.mpr hlo)
    omega
  refine ⟨_, hlength, hdigits, hhd, hnum, ?_⟩
  have hsize : (38 - 0) * 138 / 100 + 1 = 53 := rfl
  unfold b58enc
  rw [hz, hlen, List.length_nil]
  dsimp only
  rw [List.drop_zero, hsize, hrun, Option.map_some]
  rw [hlength, if_neg (by omega), List.replicate_zero, List.nil_append]
  rfl

/-- A text that denotes 38 bytes with the version in front and is not filled up with ones has 52 digits. -/
lemma text_length_of_version {n : ℕ} (hnum : b58number text = some n) (hlo : 58 ^ 51 ≤ n) (hhi : n < 58 ^ 52)
    (h : text.length = 52 ∨ 52 ≤ text.length ∧ text.head? ≠ some charOne) :
    text.length = 52 ∧ text.head? ≠ some charOne := by
  obtain ⟨ds, hds, rfl⟩ := b58number_eq_some hnum
  obtain ⟨rfl, hsmall⟩ := eq_of_mapM_b58digit hds
  rw [List.length_map, Ne, head?_b58char hsmall] at h ⊢
  rcases h with hlen | ⟨hlen, hhead⟩
  · refine ⟨hlen, fun hhead => ?_⟩
    -- with a one in front, 51 digits would be left
    cases ds with
    | nil => cases hlen
    | cons d ds =>
      obtain rfl : d = 0 := Option.some.inj hhead
      rw [List.length_cons, Nat.succ_inj] at hlen
      have hlt := radixNat_lt (b := 58) (by decide) fun e he => hsmall e (List.mem_cons_of_mem 0 he)
      rw [radixNat_cons, Nat.zero_mul, Nat.zero_add] at hlo
      rw [hlen] at hlt
      exact absurd hlt (not_lt.mpr hlo)
  · exact ⟨le_antisymm ((radixNat_length_le_iff (by decide) hsmall hhead).mpr hhi) hlen, hhead⟩

lemma map_memAt {i n : ℕ} (h : i + n ≤ bin.length) :
    (List.range n).map (fun k => memAt stack bin (i + k)) = (bin.drop i).take n := by
  apply List.ext_getElem
  · rw [List.length_map, List.length_range, List.length_take, List.length_drop]
    omega
  · intro k hk _
    rw [List.length_map, List.length_range] at hk
    have hlt : i + k < bin.length := by omega
    rw [List.getElem_map, List.getElem_range, List.getElem_take, List.getElem_drop, memAt, if_pos hlt,
      List.getD_eq_getElem?_getD, List.getElem?_eq_getElem hlt, Option.getD_some]

lemma skipZeros_eq (mem : ℕ → UInt8) (h : text.head? ≠ some charOne) : skipZeros mem 0 text = (0, text) := by
  cases text with
  | nil => rfl
  | cons c cs =>
    rw [skipZeros, if_neg]
    rintro ⟨-, rfl⟩
    exact h rfl

/-- Without ones in front, `b58check` compares the checksum of the first 34 bytes with the last four and
gives the first byte. -/
lemma b58check_eq (hlen : bin.length = 38) (hhead : text.head? ≠ some charOne) :
    b58check sha256 stack bin 38 text =
      if bin.drop 34 ≠ (myDblsha256 sha256 (bin.take 34)).toList.take 4 then -1
      else if bin.getD 0 0 = 0 then -3
      else ((bin.getD 0 0).toNat : ℤ) := by
  have hdata : (List.range (38 - 4)).map (memAt stack bin) = bin.take 34 := by
    have h : (List.range 34).map (fun k => memAt stack bin (0 + k)) = (bin.drop 0).take 34 :=
      map_memAt (by omega)
    simpa using h
  have hsum : (List.range 4).map (fun k => memAt stack bin (38 - 4 + k)) = bin.drop 34 := by
    rw [show 38 - 4 = 34 from rfl, map_memAt (by omega), List.take_of_length_le]
    rw [List.length_drop, hlen]
  have hfirst : memAt stack bin 0 = bin.getD 0 0 := if_pos (by omega)
  unfold b58check
  dsimp only
  rw [if_neg (by decide), hdata, hsum, skipZeros_eq _ hhead]
  dsimp only
  rw [hfirst]
  refine ite_congr rfl (fun _ => rfl) fun _ => ?_
  by_cases hzero : bin.getD 0 0 = 0
  · rw [if_pos hzero, if_pos (.inl hzero)]
  · rw [if_neg hzero, if_neg (not_or.mpr ⟨hzero, hhead⟩)]

/-- **What an accepted text is**: the numeral of the version byte, the address and their checksum. -/
lemma decodeAddress_eq_some {a : Address} (h : decodeAddress sha256 stack text = some a) :
    ∃ n decsize, b58number text = some n ∧ n < 256 ^ 38 ∧
      decsize = (beShort n).length + leadingOnes text % 2 ^ 32 ∧ 52 ≤ text.length ∧
      b58check sha256 stack (beBytes 38 n) decsize text = 0x42 ∧
      a = Vector.ofFn fun i => (beBytes 38 n).getD (1 + i) 0 := by
  unfold decodeAddress at h
  split at h
  · cases h
  · next hlen =>
    have htobin : b58tobin (addressLength + 1 + 4) text = b58tobin 38 text := rfl
    rw [htobin, b58tobin_eq] at h
    cases hnum : b58number text with
    | none =>
      rw [hnum] at h
      cases h
    | some n =>
      rw [hnum, Option.bind_some] at h
      by_cases hfit : n < 256 ^ 38
      · rw [if_pos hfit] at h
        dsimp only at h
        split at h
        · cases h
        · next hver =>
          refine ⟨n, _, rfl, hfit, rfl, not_lt.mp hlen, not_not.mp hver, (Option.some.inj h).symm⟩
      · rw [if_neg hfit] at h
        cases h

/-- **The text of an address is accepted for it.** -/
lemma decodeAddress_encoded {a : Address} {ds : List ℕ} (hlen : ds.length = 52) (hsmall : ∀ d ∈ ds, d < 58)
    (hhead : ds.head? ≠ some 0) (hnum : radixNat 58 ds = beNat (addressBytes sha256 a.toList)) :
    decodeAddress sha256 stack (ds.map b58char) = some a := by
  have hbytes : (addressBytes sha256 a.toList).length = 38 := addressBytes_length Vector.length_toList
  have hfit := beNat_lt (addressBytes sha256 a.toList)
  rw [hbytes] at hfit
  have htext : (ds.map b58char).head? ≠ some charOne := fun h => hhead ((head?_b58char hsmall).mp h)
  have htobin : b58tobin (addressLength + 1 + 4) (ds.map b58char) = some (addressBytes sha256 a.toList, 38) := by
    have hnumber : b58number (ds.map b58char) = some (beNat (addressBytes sha256 a.toList)) := by
      rw [b58number, mapM_b58char hsmall, Option.map_some, hnum]
    have hback : beBytes 38 (beNat (addressBytes sha256 a.toList)) = addressBytes sha256 a.toList := by
      refine beNat_inj ?_ ?_
      · rw [beBytes_length, hbytes]
      · rw [beNat_beBytes, Nat.mod_eq_of_lt hfit]
    show b58tobin 38 _ = _
    have hshort : beShort (beNat (addressBytes sha256 a.toList)) = addressBytes sha256 a.toList :=
      beShort_beNat_cons (by decide)
    rw [b58tobin_eq, hnumber, Option.bind_some, if_pos hfit, hback, leadingOnes_eq_zero htext, hshort, hbytes]
    rfl
  have hdata : (addressBytes sha256 a.toList).take 34 = 0x42 :: a.toList := by
    rw [addressBytes]
    exact List.take_left' (by rw [List.length_cons, Vector.length_toList])
  have hsum : (addressBytes sha256 a.toList).drop 34 =
      (myDblsha256 sha256 ((addressBytes sha256 a.toList).take 34)).toList.take 4 := by
    rw [hdata, addressBytes]
    exact List.drop_left' (by rw [List.length_cons, Vector.length_toList])
  have hfirst : (addressBytes sha256 a.toList).getD 0 0 = 0x42 := rfl
  have hver : b58check sha256 stack (addressBytes sha256 a.toList) 38 (ds.map b58char) = addressVersion := by
    rw [b58check_eq hbytes htext, if_neg (not_not.mpr hsum), hfirst, if_neg (by decide)]
    rfl
  unfold decodeAddress
  rw [if_neg (by rw [List.length_map, hlen]; decide), htobin]
  dsimp only
  rw [if_neg (not_not.mpr hver), Option.some.injEq]
  apply Vector.ext
  intro i hi
  rw [Vector.getElem_ofFn, addressBytes_getD hi]

lemma memAt_of_b58check {decsize : ℕ} (h : b58check sha256 stack bin decsize text = 0x42) :
    memAt stack bin 0 = 0x42 := by
  unfold b58check at h
  dsimp only at h
  split at h
  · cases h
  · split at h
    · cases h
    · split at h
      · cases h
      · refine UInt8.toNat_inj.mp ?_
        exact_mod_cast h

/-- Only the text of an address, of those not filled up with ones, is accepted for it. -/
lemma decodeAddress_only {a : Address} (h : decodeAddress sha256 stack text = some a)
    (hform : text.length = 52 ∨ 52 ≤ text.length ∧ text.head? ≠ some charOne) :
    ∃ ds : List ℕ, text = ds.map b58char ∧ ds.length = 52 ∧ (∀ d ∈ ds, d < 58) ∧
      radixNat 58 ds = beNat (addressBytes sha256 a.toList) := by
  obtain ⟨n, decsize, hnum, hfit, hsize, -, hver, ha⟩ := decodeAddress_eq_some h
  have hlen : (beBytes 38 n).length = 38 := beBytes_length 38 n
  have hval : beNat (beBytes 38 n) = n := by rw [beNat_beBytes, Nat.mod_eq_of_lt hfit]
  generalize beBytes 38 n = bin at hlen hval hver ha
  have hfirst : bin.getD 0 0 = 0x42 := by
    have hmem := memAt_of_b58check hver
    rwa [memAt, if_pos (by omega)] at hmem
  obtain ⟨bs, rfl⟩ : ∃ bs, bin = 0x42 :: bs := by
    cases bin with
    | nil => cases hlen
    | cons b bs => exact ⟨bs, by rw [show b = 0x42 from hfirst]⟩
  obtain ⟨hlo, hhi⟩ := beNat_version hlen rfl
  rw [hval] at hlo hhi
  obtain ⟨htext, hhead⟩ := text_length_of_version hnum hlo hhi hform
  have h38 : decsize = 38 := by
    rw [hsize, leadingOnes_eq_zero hhead, ← hval, beShort_beNat_cons (by decide), hlen]
    rfl
  rw [h38, b58check_eq hlen hhead] at hver
  have hsum : (0x42 :: bs).drop 34 = (myDblsha256 sha256 ((0x42 :: bs).take 34)).toList.take 4 := by
    by_contra hne
    rw [if_pos hne] at hver
    cases hver
  have hdata : (0x42 :: bs).take 34 = 0x42 :: a.toList := by
    rw [List.length_cons, Nat.succ_inj] at hlen
    rw [List.take_succ_cons, ha, Vector.toList_ofFn]
    congr 1
    apply List.ext_getElem
    · rw [List.length_take, hlen, List.length_ofFn]
      rfl
    · intro i hi hi'
      rw [List.length_take, hlen] at hi
      have hlt : i < bs.length := by omega
      rw [List.getElem_take, List.getElem_ofFn, Nat.add_comm, List.getD_cons_succ, List.getD_eq_getElem?_getD,
        List.getElem?_eq_getElem hlt, Option.getD_some]
  have hbytes : 0x42 :: bs = addressBytes sha256 a.toList := by
    rw [← List.take_append_drop 34 (0x42 :: bs), hsum, hdata]
    rfl
  obtain ⟨ds, hds, rfl⟩ := b58number_eq_some hnum
  obtain ⟨rfl, hsmall⟩ := eq_of_mapM_b58digit hds
  rw [List.length_map] at htext
  exact ⟨ds, rfl, htext, hsmall, by rw [← hbytes, hval]⟩

/-- A text of 52 characters, or a longer one without ones in front. -/
def AddressForm (text : Bytes) : Prop :=
  text.length = encodedAddressLength ∨ encodedAddressLength ≤ text.length ∧ text.head? ≠ some charOne

/-- **The codec of addresses**: an address is written as 52 digits and a null byte and read back from them,
and what is read from a text of this form is written as this text. -/
structure AddressCodec (sha256 : Bytes → Hash) (stack : ℕ → UInt8) : Prop where
  written : ∀ (a : Address) (outsize : ℕ), 53 ≤ outsize → ∃ text : Bytes,
    encodeAddress sha256 a.toList outsize = some (some (text ++ [0])) ∧ text.length = 52 ∧
      (∀ c ∈ text, c ∈ b58digitsOrdered) ∧ decodeAddress sha256 stack text = some a
  canonical : ∀ (text : Bytes) (a : Address) (outsize : ℕ), AddressForm text → 53 ≤ outsize →
    decodeAddress sha256 stack text = some a →
      encodeAddress sha256 a.toList outsize = some (some (text ++ [0]))
  unique : ∀ (text text' : Bytes) (a : Address), AddressForm text → AddressForm text' →
    decodeAddress sha256 stack text = some a → decodeAddress sha256 stack text' = some a → text = text'

lemma encodeAddress_digits (a : Address) {outsize : ℕ} (h : 53 ≤ outsize) : ∃ ds : List ℕ, ds.length = 52 ∧
    (∀ d ∈ ds, d < 58) ∧ ds.head? ≠ some 0 ∧ radixNat 58 ds = beNat (addressBytes sha256 a.toList) ∧
    encodeAddress sha256 a.toList outsize = some (some (ds.map b58char ++ [0])) :=
  b58enc_version (addressBytes_length Vector.length_toList) rfl h

variable (sha256 stack) in
lemma encodeAddress_read (a : Address) {outsize : ℕ} (h : 53 ≤ outsize) : ∃ text : Bytes,
    encodeAddress sha256 a.toList outsize = some (some (text ++ [0])) ∧ text.length = 52 ∧
      (∀ c ∈ text, c ∈ b58digitsOrdered) ∧ decodeAddress sha256 stack text = some a := by
  obtain ⟨ds, hlen, hsmall, hhead, hnum, henc⟩ := encodeAddress_digits a h
  refine ⟨_, henc, by rw [List.length_map, hlen], ?_, decodeAddress_encoded hlen hsmall hhead hnum⟩
  intro c hc
  obtain ⟨d, hd, rfl⟩ := List.mem_map.mp hc
  exact b58char_mem (hsmall d hd)

lemma encodeAddress_of_decode {a : Address} {outsize : ℕ} (hform : AddressForm text)
    (hout : 53 ≤ outsize) (h : decodeAddress sha256 stack text = some a) :
    encodeAddress sha256 a.toList outsize = some (some (text ++ [0])) := by
  obtain ⟨ds, rfl, hlen, hsmall, hnum⟩ := decodeAddress_only h hform
  obtain ⟨es, heslen, hessmall, -, hesnum, henc⟩ := encodeAddress_digits a hout
  have heq : es = ds :=
    radixNat_inj (by decide) (by rw [hlen, heslen]) hessmall hsmall (by rw [hesnum, hnum])
  rw [henc, heq]

end Codec

/-- **Addresses are read as they are written**, whatever SHA-256 is and what stands behind the buffer. -/
theorem addressCodec (sha256 : Bytes → Hash) (stack : ℕ → UInt8) : AddressCodec sha256 stack := by
  refine ⟨fun a outsize hout => encodeAddress_read sha256 stack a hout,
    fun text a outsize hform hout h => encodeAddress_of_decode hform hout h, fun text text' a hform hform' h h' => ?_⟩
  have heq : some (some (text ++ [0])) = some (some (text' ++ [0])) :=
    (encodeAddress_of_decode hform le_rfl h).symm.trans (encodeAddress_of_decode hform' le_rfl h')
  exact List.append_cancel_right (Option.some.inj (Option.some.inj heq))

end Libaergo
