import Libaergo.Lib.Bytes
import Mathlib.Data.Vector.Basic

/-!
# SHA-256 (`sha256.c`)

The streaming implementation: a context collects bytes into a block of 64, transforms the state when
the block is full, and pads at the end.  That a block in progress has fewer than 64 bytes is part of
the context, so no step writes past the buffer.  The loop of `sha256_update` counts with 32 bits and
does not end for 2^32 bytes or more; where it ends, it takes the bytes one after the other
(`update_eq_some_iff`).

The rest of the development takes the hash function as a parameter; this one is what it stands for.
-/

namespace Libaergo

open Lib

abbrev Hash := Vector UInt8 32

namespace Sha256

def rotright (a b : UInt32) : UInt32 := (a >>> b) ||| (a <<< (32 - b))
def ch (x y z : UInt32) : UInt32 := (x &&& y) ^^^ (~~~x &&& z)
def maj (x y z : UInt32) : UInt32 := (x &&& y) ^^^ (x &&& z) ^^^ (y &&& z)
def ep0 (x : UInt32) : UInt32 := rotright x 2 ^^^ rotright x 13 ^^^ rotright x 22
def ep1 (x : UInt32) : UInt32 := rotright x 6 ^^^ rotright x 11 ^^^ rotright x 25
def sig0 (x : UInt32) : UInt32 := rotright x 7 ^^^ rotright x 18 ^^^ (x >>> 3)
def sig1 (x : UInt32) : UInt32 := rotright x 17 ^^^ rotright x 19 ^^^ (x >>> 10)

def k : List UInt32 :=
  [0x428a2f98, 0x71374491, 0xb5c0fbcf, 0xe9b5dba5, 0x3956c25b, 0x59f111f1, 0x923f82a4, 0xab1c5ed5,
   0xd807aa98, 0x12835b01, 0x243185be, 0x550c7dc3, 0x72be5d74, 0x80deb1fe, 0x9bdc06a7, 0xc19bf174,
   0xe49b69c1, 0xefbe4786, 0x0fc19dc6, 0x240ca1cc, 0x2de92c6f, 0x4a7484aa, 0x5cb0a9dc, 0x76f988da,
   0x983e5152, 0xa831c66d, 0xb00327c8, 0xbf597fc7, 0xc6e00bf3, 0xd5a79147, 0x06ca6351, 0x14292967,
   0x27b70a85, 0x2e1b2138, 0x4d2c6dfc, 0x53380d13, 0x650a7354, 0x766a0abb, 0x81c2c92e, 0x92722c85,
   0xa2bfe8a1, 0xa81a664b, 0xc24b8b70, 0xc76c51a3, 0xd192e819, 0xd6990624, 0xf40e3585, 0x106aa070,
   0x19a4c116, 0x1e376c08, 0x2748774c, 0x34b0bcb5, 0x391c0cb3, 0x4ed8aa4a, 0x5b9cca4f, 0x682e6ff3,
   0x748f82ee, 0x78a5636f, 0x84c87814, 0x8cc70208, 0x90befffa, 0xa4506ceb, 0xbef9a3f7, 0xc67178f2]

/-- `ctx->state` -/
structure State where
  a : UInt32
  b : UInt32
  c : UInt32
  d : UInt32
  e : UInt32
  f : UInt32
  g : UInt32
  h : UInt32
  deriving DecidableEq

/-- The message schedule `m`, last word first: what follows the 16 words of the block. -/
def schedule : ℕ → List UInt32 → List UInt32
  | 0, m => m
  | n + 1, m =>
    schedule n ((sig1 (m.getD 1 0) + m.getD 6 0 + sig0 (m.getD 14 0) + m.getD 15 0) :: m)

def round (s : State) (km : UInt32 × UInt32) : State :=
  let t1 := s.h + ep1 s.e + ch s.e s.f s.g + km.1 + km.2
  let t2 := ep0 s.a + maj s.a s.b s.c
  ⟨t1 + t2, s.a, s.b, s.c, s.d + t1, s.e, s.f, s.g⟩

def blockWords (data : Bytes) : List UInt32 :=
  (List.range 16).map fun i => UInt32.ofNat (beNat ((data.drop (4 * i)).take 4))

/-- `sha256_transform` -/
def transform (s : State) (data : Bytes) : State :=
  let m := (schedule 48 (blockWords data).reverse).reverse
  let t := (k.zip m).foldl round s
  ⟨s.a + t.a, s.b + t.b, s.c + t.c, s.d + t.d, s.e + t.e, s.f + t.f, s.g + t.g, s.h + t.h⟩

/-- `SHA256_CTX`: the `datalen` bytes of the block in progress, which is never full. -/
structure Ctx where
  data : Bytes
  data_lt : data.length < 64
  bitlen : ℕ
  state : State

lemma nil_lt : ([] : Bytes).length < 64 := Nat.succ_pos 63

lemma append_lt {data : Bytes} {b : UInt8} (h : data.length + 1 < 64) : (data ++ [b]).length < 64 := by
  simpa using h

/-- `sha256_init` -/
def init : Ctx where
  data := []
  data_lt := nil_lt
  bitlen := 0
  state := ⟨0x6a09e667, 0xbb67ae85, 0x3c6ef372, 0xa54ff53a, 0x510e527f, 0x9b05688c, 0x1f83d9ab,
    0x5be0cd19⟩

/-- One byte of `sha256_update`. -/
def Ctx.push (ctx : Ctx) (b : UInt8) : Ctx :=
  if h : ctx.data.length + 1 < 64 then
    ⟨ctx.data ++ [b], append_lt h, ctx.bitlen, ctx.state⟩
  else
    ⟨[], nil_lt, (ctx.bitlen + 512) % 2 ^ 64, transform ctx.state (ctx.data ++ [b])⟩

def Ctx.pushAll (ctx : Ctx) (data : Bytes) : Ctx := data.foldl Ctx.push ctx

/-- `for (i = 0; i < len; ++i)`, from this place on and at most so many times; `i` is a `uint`. -/
def Ctx.updateFrom (data : Bytes) : ℕ → UInt32 → Ctx → Option Ctx
  | 0, _, _ => none
  | n + 1, i, ctx =>
    if h : i.toNat < data.length then Ctx.updateFrom data n (i + 1) (ctx.push (data.get ⟨i.toNat, h⟩))
    else some ctx

/-- `sha256_update`, if the loop ends after less than so many passes. -/
def Ctx.update (fuel : ℕ) (ctx : Ctx) (data : Bytes) : Option Ctx := Ctx.updateFrom data fuel 0 ctx

/-- The blocks `sha256_final` transforms: the padding goes into a second one when the block in progress
has no room for the length. -/
def Ctx.lastBlocks (ctx : Ctx) : List Bytes :=
  let bits := beBytes 8 ((ctx.bitlen + ctx.data.length * 8) % 2 ^ 64)
  if ctx.data.length < 56 then
    [ctx.data ++ 0x80 :: List.replicate (55 - ctx.data.length) 0 ++ bits]
  else
    [ctx.data ++ 0x80 :: List.replicate (63 - ctx.data.length) 0, List.replicate 56 0 ++ bits]

/-- The bytes of the state. -/
def State.hash (s : State) : Hash :=
  ⟨([s.a, s.b, s.c, s.d, s.e, s.f, s.g, s.h].flatMap fun w => beBytes 4 w.toNat).toArray, by simp⟩

/-- `sha256_final` -/
def Ctx.final (ctx : Ctx) : Hash := (ctx.lastBlocks.foldl transform ctx.state).hash

end Sha256

/-- `sha256`, for data on which `sha256_update` ends. -/
def sha256 (data : Bytes) : Hash := (Sha256.init.pushAll data).final

namespace Sha256

variable {ctx ctx' : Ctx} {data : Bytes} {fuel : ℕ}

theorem Ctx.pushAll_append (ctx : Ctx) (as bs : Bytes) :
    ctx.pushAll (as ++ bs) = (ctx.pushAll as).pushAll bs := by
  simp [Ctx.pushAll]

/-- The counter takes one byte after the other, up to the end of the data. -/
lemma Ctx.updateFrom_eq (hlen : data.length < 2 ^ 32) {i : UInt32} (hi : i.toNat ≤ data.length) :
    Ctx.updateFrom data fuel i ctx =
      if data.length < i.toNat + fuel then some (ctx.pushAll (data.drop i.toNat)) else none := by
  induction fuel generalizing i ctx with
  | zero => rw [Ctx.updateFrom, if_neg (by omega)]
  | succ n ih =>
    rw [Ctx.updateFrom]
    rcases hi.lt_or_eq with hlt | heq
    · have hnext : (i + 1).toNat = i.toNat + 1 := by
        rw [UInt32.toNat_add, UInt32.toNat_one]
        omega
      rw [dif_pos hlt, ih (by omega), hnext, List.drop_eq_getElem_cons hlt, Nat.add_right_comm, Nat.add_assoc]
      rfl
    · rw [dif_neg (by omega), if_pos (by omega), heq, List.drop_length]
      rfl

/-- **Where `sha256_update` ends**, and in which context. -/
theorem Ctx.update_eq_some_iff : Ctx.update fuel ctx data = some ctx' ↔
    data.length < 2 ^ 32 ∧ data.length < fuel ∧ ctx' = ctx.pushAll data := by
  unfold Ctx.update
  rcases Nat.lt_or_ge data.length (2 ^ 32) with hlen | hlen
  · rw [Ctx.updateFrom_eq hlen (Nat.zero_le _), Option.ite_none_right_eq_some, UInt32.toNat_zero, Nat.zero_add,
      List.drop_zero, Option.some.injEq, eq_comm (a := ctx')]
    exact (and_iff_right hlen).symm
  · -- the counter is below the length for ever
    have hnone : ∀ i ctx, Ctx.updateFrom data fuel i ctx = none := by
      induction fuel with
      | zero => exact fun _ _ => rfl
      | succ n ih =>
        intro i ctx
        rw [Ctx.updateFrom, dif_pos (i.toNat_lt.trans_le hlen)]
        exact ih _ _
    rw [hnone]
    exact iff_of_false nofun fun h => absurd hlen h.1.not_ge

/-- Every block that is transformed at the end has its 64 bytes. -/
theorem Ctx.lastBlocks_length (ctx : Ctx) : ∀ block ∈ ctx.lastBlocks, block.length = 64 := by
  have h := ctx.data_lt
  intro block hb
  unfold Ctx.lastBlocks at hb
  split at hb
  case isTrue hl =>
    simp only [List.mem_singleton] at hb
    subst hb
    simp
    omega
  case isFalse hl =>
    simp only [List.mem_cons, List.not_mem_nil, or_false] at hb
    rcases hb with rfl | rfl
    · simp
      omega
    · simp

end Sha256

/-- The hash of `abc`. -/
example : (sha256 [0x61, 0x62, 0x63]).toList.take 4 = [0xba, 0x78, 0x16, 0xbf] := by
  decide +kernel

end Libaergo
