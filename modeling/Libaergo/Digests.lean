import Libaergo.Sha256
import Libaergo.Lib.Bits
import Libaergo.Lib.Hashing
import Libaergo.Lib.Roots
import Mathlib.Data.Nat.Nth
import Mathlib.Data.Nat.Prime.Basic
import Mathlib.Data.Fin.VecNotation
import Mathlib.Order.Bounds.Basic

/-!
# The hash function against its standard (`sha256.c`)

FIPS 180-2 defines SHA-256 on bit strings: the message is padded to blocks of 512 bits, whose words are expanded to
the 64 words of a schedule, and the rounds work with the constants that the primes give.  The bytes that
`sha256_final` writes are that digest of what the context was updated with, in whatever pieces of less than 2^32 bytes
(`final_standard`).

Messages on which `sha256_update` ends have different hashes unless two of the calls of `sha256_transform` that are made
for them collide (`sha256_ne`).
-/

namespace Libaergo.Sha256

open Lib Lib.Hashing

/-! ### The standard -/

namespace Standard

abbrev Word := BitVec 32

def ch (x y z : Word) : Word := (x &&& y) ^^^ (~~~x &&& z)
def maj (x y z : Word) : Word := (x &&& y) ^^^ (x &&& z) ^^^ (y &&& z)
def bigSigma0 (x : Word) : Word := x.rotateRight 2 ^^^ x.rotateRight 13 ^^^ x.rotateRight 22
def bigSigma1 (x : Word) : Word := x.rotateRight 6 ^^^ x.rotateRight 11 ^^^ x.rotateRight 25
def sigma0 (x : Word) : Word := x.rotateRight 7 ^^^ x.rotateRight 18 ^^^ (x >>> 3)
def sigma1 (x : Word) : Word := x.rotateRight 17 ^^^ x.rotateRight 19 ^^^ (x >>> 10)

/-- The constants: the first 32 bits of the fractional parts of the cube roots of the primes. -/
noncomputable def constant (t : ℕ) : Word := BitVec.ofNat 32 (rootFraction 3 32 (Nat.nth Nat.Prime t))

/-- The initial hash value: the first 32 bits of the fractional parts of the square roots. -/
noncomputable def initial (j : Fin 8) : Word := BitVec.ofNat 32 (rootFraction 2 32 (Nat.nth Nat.Prime j))

/-- The number of zeros behind a message of `l` bits and a one. -/
def zeros (l : ℕ) : ℕ := (959 - l % 512) % 512

lemma zeros_isLeast (l : ℕ) : IsLeast {k | (l + 1 + k) % 512 = 448} (zeros l) := by
  unfold zeros
  constructor
  · show (l + 1 + (959 - l % 512) % 512) % 512 = 448
    omega
  · intro k hk
    have hmod : (l + 1 + k) % 512 = 448 := hk
    omega

def pad (m : List Bool) : List Bool :=
  m ++ true :: (List.replicate (zeros m.length) false ++ bits 64 m.length)

def word (block : List Bool) (t : ℕ) : Word := BitVec.ofNat 32 (number ((block.drop (32 * t)).take 32))

def schedule (m : ℕ → Word) (t : ℕ) : Word :=
  if t < 16 then m t
  else
    sigma1 (schedule m (t - 2)) + schedule m (t - 7) + sigma0 (schedule m (t - 15)) + schedule m (t - 16)
termination_by t

/-- One round, for the working variables `a` to `h`. -/
noncomputable def round (w : ℕ → Word) (v : Fin 8 → Word) (t : ℕ) : Fin 8 → Word :=
  let t1 := v 7 + bigSigma1 (v 4) + ch (v 4) (v 5) (v 6) + constant t + w t
  let t2 := bigSigma0 (v 0) + maj (v 0) (v 1) (v 2)
  ![t1 + t2, v 0, v 1, v 2, v 3 + t1, v 4, v 5, v 6]

noncomputable def compress (hash : Fin 8 → Word) (block : List Bool) : Fin 8 → Word :=
  let v := (List.range 64).foldl (round (schedule (word block))) hash
  fun j => v j + hash j

/-- **The digest of a message.** -/
noncomputable def digest (m : List Bool) : List Bool :=
  (List.finRange 8).flatMap fun j => bits 32 (compressAll compress 512 initial (pad m) j).toNat

end Standard

/-! ### The constants -/

section Constants

def primes : List ℕ :=
  [2, 3, 5, 7, 11, 13, 17, 19, 23, 29, 31, 37, 41, 43, 47, 53, 59, 61, 67, 71, 73, 79, 83, 89, 97, 101, 103, 107, 109,
    113, 127, 131, 137, 139, 149, 151, 157, 163, 167, 173, 179, 181, 191, 193, 197, 199, 211, 223, 227, 229, 233, 239,
    241, 251, 257, 263, 269, 271, 277, 281, 283, 293, 307, 311]

/-- No number below 18 divides it: for the numbers below 18^2 that is enough. -/
def isPrime (n : ℕ) : Bool := 2 ≤ n && (List.range 18).all fun m => m < 2 || n ≤ m || n % m ≠ 0

lemma isPrime_iff {n : ℕ} (h : n < 324) : isPrime n = true ↔ n.Prime := by
  have hall : isPrime n = true ↔ 2 ≤ n ∧ ∀ m < 18, 2 ≤ m → m < n → ¬ m ∣ n := by
    simp only [isPrime, Bool.and_eq_true, decide_eq_true_eq, List.all_eq_true, List.mem_range, Bool.or_eq_true,
      Nat.dvd_iff_mod_eq_zero]
    refine and_congr_right fun _ => forall_congr' fun m => forall_congr' fun _ => ?_
    constructor
    · rintro ((h | h) | h) h2 hlt
      · omega
      · omega
      · exact h
    · intro h
      by_cases h2 : m < 2
      · exact .inl (.inl h2)
      · by_cases hle : n ≤ m
        · exact .inl (.inr hle)
        · exact .inr (h (not_lt.mp h2) (not_le.mp hle))
  rw [hall, Nat.prime_def_le_sqrt]
  refine and_congr_right fun hn => ?_
  constructor
  · intro hdvd m h2 hsqrt
    have hsq : m * m ≤ n := Nat.le_sqrt.mp hsqrt
    exact hdvd m (by nlinarith) h2 (by nlinarith)
  · intro hdvd m _ h2 hlt hm
    have hprime : n.Prime := Nat.prime_def_le_sqrt.mpr ⟨hn, hdvd⟩
    rcases (Nat.dvd_prime hprime).mp hm with h | h <;> omega

lemma count_prime {n : ℕ} (h : n ≤ 324) : Nat.count Nat.Prime n = (List.range n).countP isPrime := by
  induction n with
  | zero => rfl
  | succ n ih =>
    rw [Nat.count_succ, ih (by omega), List.range_succ, List.countP_append, List.countP_singleton]
    congr 1
    exact if_congr (isPrime_iff (by omega)).symm rfl rfl

lemma nth_prime {t : ℕ} (h : t < 64) : Nat.nth Nat.Prime t = primes.getD t 0 := by
  have hall : ((List.range 64).all fun t => decide (primes.getD t 0 < 324) && isPrime (primes.getD t 0) &&
      (List.range (primes.getD t 0)).countP isPrime = t) = true := by decide +kernel
  have ht := List.all_eq_true.mp hall t (List.mem_range.mpr h)
  simp only [Bool.and_eq_true, decide_eq_true_eq] at ht
  obtain ⟨⟨hlt, hprime⟩, hcount⟩ := ht
  have hnth := Nat.nth_count ((isPrime_iff hlt).mp hprime)
  rwa [count_prime hlt.le, hcount] at hnth

/-- `k` are the first 32 bits behind the integral part of the root. -/
def isFraction (r p k : ℕ) : Bool :=
  k < 2 ^ 32 && (List.range 7).any fun c =>
    decide ((c * 2 ^ 32 + k) ^ r ≤ p * 2 ^ (32 * r)) && decide (p * 2 ^ (32 * r) < (c * 2 ^ 32 + k + 1) ^ r)

lemma rootFraction_of_isFraction {r p n : ℕ} (hr : r ≠ 0) (h : isFraction r p n = true) : rootFraction r 32 p = n := by
  simp only [isFraction, Bool.and_eq_true, decide_eq_true_eq, List.any_eq_true] at h
  obtain ⟨hlt, c, -, hlo, hhi⟩ := h
  exact rootFraction_eq hr hlt hlo hhi

lemma constant_eq {t : ℕ} (h : t < 64) : Standard.constant t = (k.getD t 0).toBitVec := by
  have hall : ((List.range 64).all fun t => isFraction 3 (primes.getD t 0) (k.getD t 0).toNat) = true := by
    decide +kernel
  have ht := List.all_eq_true.mp hall t (List.mem_range.mpr h)
  rw [Standard.constant, nth_prime h, rootFraction_of_isFraction (by decide) ht]
  exact (BitVec.ofNat_toNat 32 (k.getD t 0).toBitVec).trans (BitVec.setWidth_eq _)

end Constants

/-! ### One block -/

section Transform

variable {s : State} {block : Bytes}

/-- The state as the hash value of the standard. -/
def State.words (s : State) : Fin 8 → Standard.Word :=
  ![s.a.toBitVec, s.b.toBitVec, s.c.toBitVec, s.d.toBitVec, s.e.toBitVec, s.f.toBitVec, s.g.toBitVec, s.h.toBitVec]

lemma words_init : init.state.words = Standard.initial := by
  have hall : ((List.finRange 8).all fun j => isFraction 2 (primes.getD j 0) (init.state.words j).toNat) = true := by
    decide +kernel
  funext j
  have hj := List.all_eq_true.mp hall j (List.mem_finRange j)
  rw [Standard.initial, nth_prime (by omega), rootFraction_of_isFraction (by decide) hj]
  exact ((BitVec.ofNat_toNat 32 (init.state.words j)).trans (BitVec.setWidth_eq _)).symm

lemma word_bitText (block : Bytes) (t : ℕ) :
    Standard.word (bitText block) t = BitVec.ofNat 32 (beNat ((block.drop (4 * t)).take 4)) := by
  have hdrop : 32 * t = 8 * (4 * t) := by omega
  rw [Standard.word, hdrop, ← bitText_drop, ← number_bitText, bitText_take]

def scheduled (block : Bytes) (t : ℕ) : UInt32 := ⟨Standard.schedule (Standard.word (bitText block)) t⟩

lemma scheduled_of_lt {t : ℕ} (h : t < 16) :
    scheduled block t = UInt32.ofNat (beNat ((block.drop (4 * t)).take 4)) := by
  rw [scheduled, Standard.schedule, if_pos h, word_bitText]
  rfl

lemma scheduled_of_ge (block : Bytes) {t : ℕ} (h : 16 ≤ t) : scheduled block t =
    sig1 (scheduled block (t - 2)) + scheduled block (t - 7) + sig0 (scheduled block (t - 15)) +
      scheduled block (t - 16) := by
  conv_lhs => rw [scheduled, Standard.schedule, if_neg (not_lt.mpr h)]
  rfl

lemma schedule_eq (block : Bytes) (n : ℕ) {t : ℕ} (h : 16 ≤ t) :
    schedule n ((List.range t).map (scheduled block)).reverse =
      ((List.range (t + n)).map (scheduled block)).reverse := by
  induction n generalizing t with
  | zero => rfl
  | succ n ih =>
    have hget : ∀ i < t, ((List.range t).map (scheduled block)).reverse.getD i 0 = scheduled block (t - 1 - i) := by
      intro i hi
      rw [List.getD_eq_getElem _ _ (by simpa using hi), List.getElem_reverse, List.getElem_map, List.getElem_range,
        List.length_map, List.length_range]
    have hnext := scheduled_of_ge block h
    rw [schedule, hget 1 (by omega), hget 6 (by omega), hget 14 (by omega), hget 15 (by omega)]
    have hlist : scheduled block t :: ((List.range t).map (scheduled block)).reverse =
        ((List.range (t + 1)).map (scheduled block)).reverse := by
      rw [List.range_succ, List.map_append, List.reverse_append]
      rfl
    have htwo : t - 1 - 1 = t - 2 := by omega
    have hseven : t - 1 - 6 = t - 7 := by omega
    have hfifteen : t - 1 - 14 = t - 15 := by omega
    have hsixteen : t - 1 - 15 = t - 16 := by omega
    rw [htwo, hseven, hfifteen, hsixteen, ← hnext, hlist, ih (by omega), Nat.add_right_comm, Nat.add_assoc]

lemma words_round (s : State) {t : ℕ} (ht : t < 64) (w : ℕ → UInt32) :
    (round s (k.getD t 0, w t)).words = Standard.round (fun t => (w t).toBitVec) s.words t := by
  rw [Standard.round, constant_eq ht]
  rfl

/-- **`sha256_transform` is the compression of the standard.** -/
lemma words_transform (s : State) (block : Bytes) :
    (transform s block).words = Standard.compress s.words (bitText block) := by
  have hwords : blockWords block = (List.range 16).map (scheduled block) :=
    List.map_congr_left fun t ht => (scheduled_of_lt (List.mem_range.mp ht)).symm
  have hk : k = (List.range 64).map fun t => k.getD t 0 := by decide
  have hrounds : ∀ l : List ℕ, (∀ t ∈ l, t < 64) → ∀ s : State,
      (l.foldl (fun s t => round s (k.getD t 0, scheduled block t)) s).words =
        l.foldl (Standard.round (Standard.schedule (Standard.word (bitText block)))) s.words := by
    intro l
    induction l with
    | nil => exact fun _ _ => rfl
    | cons t l ih =>
      intro hl s
      rw [List.foldl_cons, List.foldl_cons, ih fun t ht => hl t (List.mem_cons_of_mem _ ht),
        words_round s (hl t List.mem_cons_self) (scheduled block)]
      rfl
  have hzip : k.zip ((List.range 64).map (scheduled block)) =
      (List.range 64).map fun t => (k.getD t 0, scheduled block t) := by
    conv_lhs => rw [hk]
    exact List.zip_map'
  unfold transform Standard.compress
  dsimp only
  rw [hwords, schedule_eq block 48 le_rfl, List.reverse_reverse, hzip, List.foldl_map,
    ← hrounds (List.range 64) (fun t ht => List.mem_range.mp ht)]
  funext j
  fin_cases j <;> exact BitVec.add_comm _ _

end Transform

/-! ### The context -/

section Context

variable {ctx : Ctx} {m : Bytes}

/-- The state and the block in progress. -/
def Ctx.held (ctx : Ctx) : State × Bytes := (ctx.state, ctx.data)

lemma held_push (ctx : Ctx) (b : UInt8) : (ctx.push b).held = absorb transform 64 ctx.held b := by
  unfold Ctx.push absorb Ctx.held
  split <;> rfl

lemma held_pushAll (ctx : Ctx) (m : Bytes) : (ctx.pushAll m).held =
    (compressAll transform 64 ctx.state (ctx.data ++ m), rest 64 (ctx.data ++ m)) := by
  rw [← foldl_absorb (by decide) ctx.state ctx.data_lt]
  exact (List.foldl_hom Ctx.held fun ctx b => (held_push ctx b).symm).symm

lemma bitlen_pushAll (ctx : Ctx) (m : Bytes) : ((ctx.pushAll m).bitlen + (ctx.pushAll m).data.length * 8) % 2 ^ 64 =
    (ctx.bitlen + (ctx.data.length + m.length) * 8) % 2 ^ 64 := by
  induction m generalizing ctx with
  | nil => rfl
  | cons b m ih =>
    have hstep : ((ctx.push b).bitlen + ((ctx.push b).data.length + m.length) * 8) % 2 ^ 64 =
        (ctx.bitlen + (ctx.data.length + (m.length + 1)) * 8) % 2 ^ 64 := by
      have hlt := ctx.data_lt
      unfold Ctx.push
      split
      · rw [List.length_append, List.length_singleton]
        congr 1
        ring
      · dsimp only
        rw [List.length_nil]
        omega
    exact (ih (ctx.push b)).trans hstep

/-- What is put behind a message of `l` bytes. -/
def padding (l : ℕ) : Bytes :=
  0x80 :: (List.replicate ((119 - l % 64) % 64) 0 ++ beBytes 8 (l * 8 % 2 ^ 64))

lemma padding_length (l : ℕ) : (padding l).length = 9 + (119 - l % 64) % 64 := by
  simp only [padding, List.length_cons, List.length_append, List.length_replicate, beBytes_length]
  omega

lemma lastBlocks_eq {l : ℕ} (hl : ctx.data.length = l % 64)
    (hbits : (ctx.bitlen + ctx.data.length * 8) % 2 ^ 64 = l * 8 % 2 ^ 64) :
    ctx.lastBlocks = blocks 64 (ctx.data ++ padding l) := by
  have hlt := ctx.data_lt
  have hflatten : ctx.lastBlocks.flatten = ctx.data ++ padding l := by
    unfold Ctx.lastBlocks padding
    dsimp only
    rw [hbits, ← hl]
    split
    · have hzeros : (119 - ctx.data.length) % 64 = 55 - ctx.data.length := by omega
      simp [hzeros]
    · have hzeros : (119 - ctx.data.length) % 64 = 63 - ctx.data.length + 56 := by omega
      simp only [hzeros, List.replicate_add, List.flatten_cons, List.flatten_nil, List.append_nil, List.append_assoc,
        List.cons_append]
  rw [← hflatten, blocks_flatten (by decide) ctx.lastBlocks_length]

def padded (m : Bytes) : Bytes := m ++ padding m.length

lemma padded_length (m : Bytes) : (padded m).length = 64 * ((m.length + 72) / 64) := by
  rw [padded, List.length_append, padding_length]
  omega

/-- The blocks that are transformed are those of the padded message. -/
lemma blocks_padded (m : Bytes) : blocks 64 (padded m) = blocks 64 m ++ (init.pushAll m).lastBlocks := by
  have hdata : (init.pushAll m).data = rest 64 m := congrArg Prod.snd (held_pushAll init m)
  have hlength : (init.pushAll m).data.length = m.length % 64 := by rw [hdata, rest_length]
  have hbits : ((init.pushAll m).bitlen + (init.pushAll m).data.length * 8) % 2 ^ 64 = m.length * 8 % 2 ^ 64 := by
    rw [bitlen_pushAll]
    show (0 + (0 + m.length) * 8) % 2 ^ 64 = _
    rw [Nat.zero_add, Nat.zero_add]
  rw [lastBlocks_eq hlength hbits, hdata, padded, blocks_append_rest (by decide)]

/-- **The hash is the state after the padded message.** -/
lemma sha256_eq (m : Bytes) : sha256 m = (compressAll transform 64 init.state (padded m)).hash := by
  have hstate : (init.pushAll m).state = compressAll transform 64 init.state m :=
    congrArg Prod.fst (held_pushAll init m)
  rw [compressAll, blocks_padded, List.foldl_append]
  exact congrArg (fun s => (List.foldl transform s (init.pushAll m).lastBlocks).hash) hstate

end Context

/-! ### The digest -/

section Digest

lemma blocks_bitText (xs : Bytes) : blocks 512 (bitText xs) = (blocks 64 xs).map bitText := by
  have hcount : (bitText xs).length / 512 = xs.length / 64 := by
    rw [bitText_length]
    omega
  unfold blocks
  rw [hcount, List.map_map]
  refine List.map_congr_left fun i _ => ?_
  have hdrop : 512 * i = 8 * (64 * i) := by omega
  rw [Function.comp_apply, bitText_take, bitText_drop, hdrop]

lemma words_compressAll (s : State) (xs : Bytes) : (compressAll transform 64 s xs).words =
    compressAll Standard.compress 512 s.words (bitText xs) := by
  rw [compressAll, compressAll, blocks_bitText, List.foldl_map]
  exact (List.foldl_hom State.words fun s block => (words_transform s block).symm).symm

lemma bitText_padded (m : Bytes) : bitText (padded m) = Standard.pad (bitText m) := by
  have hmark : ∀ bs : Bytes, bitText (0x80 :: bs) = (true :: List.replicate 7 false) ++ bitText bs := fun _ => rfl
  have hzeros : Standard.zeros (8 * m.length) = 7 + 8 * ((119 - m.length % 64) % 64) := by
    unfold Standard.zeros
    omega
  have hbits : bits (8 * 8) (m.length * 8 % 2 ^ 64) = bits 64 (8 * m.length) := by
    rw [Nat.mul_comm m.length 8]
    exact bits_mod (le_refl 64) (8 * m.length)
  rw [padded, bitText_append, padding, hmark, bitText_append, bitText_replicate_zero, bitText_beBytes, hbits, Standard.pad,
    bitText_length, hzeros, List.replicate_add, List.cons_append, List.append_assoc]

lemma bitText_hash (s : State) :
    bitText s.hash.toList = (List.finRange 8).flatMap fun j => bits 32 (s.words j).toNat := by
  have hbytes : s.hash.toList = [s.a, s.b, s.c, s.d, s.e, s.f, s.g, s.h].flatMap fun w => beBytes 4 w.toNat := rfl
  have hwords : ∀ ws : List UInt32, bitText (ws.flatMap fun w => beBytes 4 w.toNat) =
      ws.flatMap fun w => bits 32 w.toNat := by
    intro ws
    induction ws with
    | nil => rfl
    | cons w ws ih => rw [List.flatMap_cons, bitText_append, bitText_beBytes, ih, List.flatMap_cons]
  rw [hbytes, hwords]
  rfl

/-- The updates of a context with pieces, one after the other. -/
def Ctx.updates (fuel : ℕ) (ctx : Ctx) (pieces : List Bytes) : Option Ctx := pieces.foldlM (Ctx.update fuel) ctx

lemma updates_eq_some_iff {fuel : ℕ} {ctx ctx' : Ctx} {pieces : List Bytes} : ctx.updates fuel pieces = some ctx' ↔
    (∀ piece ∈ pieces, piece.length < 2 ^ 32 ∧ piece.length < fuel) ∧ ctx' = ctx.pushAll pieces.flatten := by
  induction pieces generalizing ctx with
  | nil => simp [Ctx.updates, Ctx.pushAll, eq_comm]
  | cons piece pieces ih =>
    have hcons : ctx.updates fuel (piece :: pieces) = (ctx.update fuel piece).bind fun ctx => ctx.updates fuel pieces :=
      List.foldlM_cons ..
    rw [hcons, Option.bind_eq_some_iff, List.forall_mem_cons, List.flatten_cons, Ctx.pushAll_append]
    constructor
    · rintro ⟨next, hpiece, hrest⟩
      obtain ⟨hlen, hfuel, rfl⟩ := Ctx.update_eq_some_iff.mp hpiece
      obtain ⟨hall, hctx⟩ := ih.mp hrest
      exact ⟨⟨⟨hlen, hfuel⟩, hall⟩, hctx⟩
    · rintro ⟨⟨hpiece, hall⟩, hctx⟩
      exact ⟨_, Ctx.update_eq_some_iff.mpr ⟨hpiece.1, hpiece.2, rfl⟩, ih.mpr ⟨hall, hctx⟩⟩

/-- **What `sha256_final` writes is the digest of the standard**, in whatever pieces the message was given.  The updates
end just when no piece has 2^32 bytes. -/
theorem final_standard (pieces : List Bytes) :
    ((∃ fuel ctx, init.updates fuel pieces = some ctx) ↔ ∀ piece ∈ pieces, piece.length < 2 ^ 32) ∧
      ∀ fuel ctx, init.updates fuel pieces = some ctx → pieces.flatten.length < 2 ^ 61 →
        bitText ctx.final.toList = Standard.digest (bitText pieces.flatten) := by
  refine ⟨⟨?_, fun hall => ?_⟩, fun fuel ctx h _ => ?_⟩
  · rintro ⟨fuel, ctx, h⟩ piece hpiece
    exact ((updates_eq_some_iff.mp h).1 piece hpiece).1
  · refine ⟨2 ^ 32, _, updates_eq_some_iff.mpr ⟨fun piece hpiece => ?_, rfl⟩⟩
    exact ⟨hall piece hpiece, hall piece hpiece⟩
  · obtain ⟨-, rfl⟩ := updates_eq_some_iff.mp h
    have hhash : (init.pushAll pieces.flatten).final = sha256 pieces.flatten := rfl
    rw [hhash, sha256_eq, bitText_hash, words_compressAll, bitText_padded, words_init, Standard.digest]

/-- The message `abc` in two pieces. -/
theorem final_standard_abc : ∃ ctx, init.updates 3 [[0x61], [0x62, 0x63]] = some ctx ∧
    bitText ctx.final.toList = Standard.digest (bitText [0x61, 0x62, 0x63]) :=
  ⟨_, rfl, (final_standard [[0x61], [0x62, 0x63]]).2 3 _ rfl (by decide)⟩

end Digest

/-! ### Collisions -/

section Collisions

/-- The calls of `sha256_transform` for the bytes that are still to come, and at the end. -/
def Ctx.calls (ctx : Ctx) : Bytes → List (State × Bytes)
  | [] => steps transform ctx.state ctx.lastBlocks
  | b :: m =>
    if ctx.data.length + 1 < 64 then (ctx.push b).calls m
    else (ctx.state, ctx.data ++ [b]) :: (ctx.push b).calls m

variable {as bs : Bytes} {s s' : State}

lemma calls_eq (ctx : Ctx) (m : Bytes) : ctx.calls m = steps transform ctx.state (blocks 64 (ctx.data ++ m)) ++
    steps transform (ctx.pushAll m).state (ctx.pushAll m).lastBlocks := by
  induction m generalizing ctx with
  | nil =>
    rw [List.append_nil, blocks_of_lt ctx.data_lt]
    rfl
  | cons b m ih =>
    have hsplit : ctx.data ++ b :: m = (ctx.data ++ [b]) ++ m := by simp
    have hpushAll : ctx.pushAll (b :: m) = (ctx.push b).pushAll m := rfl
    have hlt := ctx.data_lt
    rw [Ctx.calls, ih, hpushAll, hsplit]
    by_cases hroom : ctx.data.length + 1 < 64
    · have hpush : ctx.push b = ⟨ctx.data ++ [b], append_lt hroom, ctx.bitlen, ctx.state⟩ := dif_pos hroom
      rw [if_pos hroom, hpush]
    · have hpush : ctx.push b = ⟨[], nil_lt, (ctx.bitlen + 512) % 2 ^ 64, transform ctx.state (ctx.data ++ [b])⟩ :=
        dif_neg hroom
      have hfull : (ctx.data ++ [b]).length = 64 := by
        rw [List.length_append, List.length_singleton]
        omega
      have hblocks : blocks 64 ((ctx.data ++ [b]) ++ m) = (ctx.data ++ [b]) :: blocks 64 m := by
        rw [blocks_append (by decide) (Dvd.intro 1 hfull.symm), blocks_self (by decide) hfull]
        rfl
      rw [if_neg hroom, hpush, hblocks]
      rfl

/-- **The calls are the steps of the padded message.** -/
lemma calls_init (m : Bytes) : init.calls m = steps transform init.state (blocks 64 (padded m)) := by
  have hstate : (init.pushAll m).state = (blocks 64 m).foldl transform init.state :=
    congrArg Prod.fst (held_pushAll init m)
  rw [calls_eq, blocks_padded, steps_append, hstate]
  rfl

lemma padded_drop (m : Bytes) : (padded m).drop ((padded m).length - 8) = beBytes 8 (m.length * 8 % 2 ^ 64) := by
  have hsplit : padded m = (m ++ 0x80 :: List.replicate ((119 - m.length % 64) % 64) 0) ++
      beBytes 8 (m.length * 8 % 2 ^ 64) := by
    rw [padded, padding, List.append_assoc, List.cons_append]
  have hlength : (padded m).length - 8 = (m ++ 0x80 :: List.replicate ((119 - m.length % 64) % 64) 0).length := by
    rw [hsplit, List.length_append, beBytes_length, Nat.add_sub_cancel]
  rw [hlength, hsplit, List.drop_left]

lemma padded_ne_nil (m : Bytes) : padded m ≠ [] := by
  rw [padded, padding]
  simp

lemma length_eq_of_last (ha : as.length < 2 ^ 61) (hb : bs.length < 2 ^ 61)
    (h : (blocks 64 (padded as)).getLast? = (blocks 64 (padded bs)).getLast?) : as.length = bs.length := by
  have hlast : ∀ m : Bytes, (blocks 64 (padded m)).getLast? = some ((padded m).drop ((padded m).length - 64)) :=
    fun m => getLast?_blocks (by decide) ⟨_, padded_length m⟩ (padded_ne_nil m)
  have hbits : ∀ m : Bytes, ((padded m).drop ((padded m).length - 64)).drop 56 = beBytes 8 (m.length * 8 % 2 ^ 64) := by
    intro m
    have hlength := padded_length m
    have hsum : (padded m).length - 64 + 56 = (padded m).length - 8 := by omega
    rw [List.drop_drop, hsum, padded_drop]
  rw [hlast, hlast, Option.some.injEq] at h
  have hsame := congrArg (fun block : Bytes => beNat (block.drop 56)) h
  rw [hbits, hbits, beNat_beBytes, beNat_beBytes] at hsame
  omega

lemma strengthening : Strengthening 64 {m : Bytes | m.length < 2 ^ 61} padded where
  whole m _ := ⟨_, padded_length m⟩
  nonempty m _ := padded_ne_nil m
  injective as ha bs hb h := by
    have hlength : as.length = bs.length := length_eq_of_last ha hb (by rw [h])
    exact (List.append_inj h hlength).1
  last as ha bs hb h := by rw [padded_length, padded_length, length_eq_of_last ha hb h]

lemma flatMap_beBytes_inj {ws ws' : List UInt32} (hlen : ws.length = ws'.length)
    (h : (ws.flatMap fun w => beBytes 4 w.toNat) = ws'.flatMap fun w => beBytes 4 w.toNat) : ws = ws' := by
  induction ws generalizing ws' with
  | nil => exact (List.length_eq_zero_iff.mp hlen.symm).symm
  | cons w ws ih =>
    obtain ⟨w', ws', rfl⟩ := List.exists_cons_of_length_eq_add_one hlen.symm
    rw [List.flatMap_cons, List.flatMap_cons] at h
    obtain ⟨hfirst, hrest⟩ := List.append_inj h (by rw [beBytes_length, beBytes_length])
    have hnat := congrArg beNat hfirst
    have hw : w.toNat < 256 ^ 4 := w.toNat_lt
    have hw' : w'.toNat < 256 ^ 4 := w'.toNat_lt
    rw [beNat_beBytes, beNat_beBytes, Nat.mod_eq_of_lt hw, Nat.mod_eq_of_lt hw'] at hnat
    rw [UInt32.toNat_inj.mp hnat, ih (Nat.succ.inj hlen) hrest]

lemma hash_inj (h : s.hash = s'.hash) : s = s' := by
  have hbytes : ∀ s : State, s.hash.toList = [s.a, s.b, s.c, s.d, s.e, s.f, s.g, s.h].flatMap fun w =>
      beBytes 4 w.toNat := fun _ => rfl
  have hlist := congrArg Vector.toList h
  rw [hbytes, hbytes] at hlist
  have hwords := flatMap_beBytes_inj (by simp) hlist
  simp only [List.cons.injEq, and_true] at hwords
  cases s
  cases s'
  simpa using hwords

/-- **Different messages have different hashes**, where `sha256_update` ends on them, unless two of the calls of
`sha256_transform` that are made for them collide. -/
theorem sha256_ne (ha : as.length < 2 ^ 32) (hb : bs.length < 2 ^ 32) (hne : as ≠ bs)
    (hfree : ∀ p ∈ init.calls as, ∀ q ∈ init.calls bs, transform p.1 p.2 = transform q.1 q.2 → p = q) :
    sha256 as ≠ sha256 bs := by
  intro heq
  rw [sha256_eq, sha256_eq] at heq
  obtain ⟨p, hp, q, hq, hdiffer, hsame⟩ := strengthening.collides (by decide) (ha.trans (by decide)) (hb.trans (by decide)) hne (hash_inj heq)
  rw [calls_init, calls_init] at hfree
  exact hdiffer (hfree p hp q hq hsame)

/-- Two messages with two calls and one. -/
theorem sha256_ne_zeros : sha256 (List.replicate 64 0) ≠ sha256 [0x61] :=
  sha256_ne (by decide) (by decide) (by decide) (by decide +kernel)

end Collisions

end Libaergo.Sha256
