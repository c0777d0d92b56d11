import Libaergo.Sha256

/-!
# Reading an address (`base58.c`, `account.c`)

An address is 33 bytes; its text is the base58 numeral of the version byte, the address and four
bytes of checksum.  `b58tobin` converts the numeral into a 38-byte buffer, word by word with carries,
and reports a size of its own count; `b58check` recomputes the checksum over that size.

SHA-256 is a parameter.  The reported size may pass the end of the buffer, and the checksum is then
taken over what the stack holds behind it, so those bytes are a parameter too.
-/

namespace Libaergo

open Lib

/-- `AddressLength` bytes. -/
abbrev Address := Vector UInt8 33

lemma Address.pos : 0 < 33 := Nat.succ_pos 32

def addressLength : ℕ := 33
def encodedAddressLength : ℕ := 52
def addressVersion : ℕ := 0x42

/-- The character `'1'`, the base58 digit zero. -/
def charOne : UInt8 := 0x31

def b58digitsMap : List ℤ :=
  [-1, -1, -1, -1, -1, -1, -1, -1, -1, -1, -1, -1, -1, -1, -1, -1,
   -1, -1, -1, -1, -1, -1, -1, -1, -1, -1, -1, -1, -1, -1, -1, -1,
   -1, -1, -1, -1, -1, -1, -1, -1, -1, -1, -1, -1, -1, -1, -1, -1,
   -1,  0,  1,  2,  3,  4,  5,  6,  7,  8, -1, -1, -1, -1, -1, -1,
   -1,  9, 10, 11, 12, 13, 14, 15, 16, -1, 17, 18, 19, 20, 21, -1,
   22, 23, 24, 25, 26, 27, 28, 29, 30, 31, 32, -1, -1, -1, -1, -1,
   -1, 33, 34, 35, 36, 37, 38, 39, 40, 41, 42, 43, -1, 44, 45, 46,
   47, 48, 49, 50, 51, 52, 53, 54, 55, 56, 57, -1, -1, -1, -1, -1]

/-- The value of a digit; a byte with the high bit set or outside the alphabet has none. -/
def b58digit (c : UInt8) : Option ℕ :=
  if 0x80 ≤ c.toNat then none
  else
    let d := b58digitsMap.getD c.toNat (-1)
    if d = -1 then none else some d.toNat

/-- The inner loop of `b58tobin`, from the last word to the first: every word times 58 plus the carry
of the word behind it, and the carry out of the first. -/
def mulAddWords : List ℕ → ℕ → List ℕ × ℕ
  | [], c => ([], c)
  | w :: ws, c =>
    let (ws, c) := mulAddWords ws c
    let t := w * 58 + c
    (t % 2 ^ 32 :: ws, t / 2 ^ 32 % 64)

/-- The outer loop over the digits behind the leading ones. -/
def b58digitsLoop (zeromask : ℕ) : Bytes → List ℕ → Option (List ℕ)
  | [], outi => some outi
  | c :: cs, outi =>
    match b58digit c with
    | none => none
    | some d =>
      let (outi, carry) := mulAddWords outi d
      if carry ≠ 0 then none
      else if outi.headD 0 &&& zeromask ≠ 0 then none
      else b58digitsLoop zeromask cs outi

/-- `b58tobin`: the contents of the buffer of `binsz` bytes and the reported size, the significant
bytes plus the leading ones of the text; `zerocount` is an `unsigned`. -/
def b58tobin (binsz : ℕ) (b58 : Bytes) : Option (Bytes × ℕ) :=
  let outisz := (binsz + 3) / 4
  let bytesleft := binsz % 4
  let zeromask := if bytesleft = 0 then 0 else (0xffffffff <<< (bytesleft * 8)) % 2 ^ 32
  let zerocount := (b58.takeWhile (· = charOne)).length
  (b58digitsLoop zeromask (b58.drop zerocount) (List.replicate outisz 0)).map fun outi =>
    let bin :=
      if bytesleft = 0 then outi.flatMap (beBytes 4)
      else beBytes bytesleft (outi.headD 0) ++ outi.tail.flatMap (beBytes 4)
    (bin, (bin.dropWhile (· = 0)).length + zerocount % 2 ^ 32)

section Check

variable (sha256 : Bytes → Hash) (stack : ℕ → UInt8)

def myDblsha256 (data : Bytes) : Hash := sha256 (sha256 data).toList

/-- What stands at offset `i` from the start of the buffer. -/
def memAt (bin : Bytes) (i : ℕ) : UInt8 :=
  if i < bin.length then bin.getD i 0 else stack (i - bin.length)

/-- The loop of `b58check` over the leading zeros: where it stops, and the text from there. -/
def skipZeros (mem : ℕ → UInt8) : ℕ → Bytes → ℕ × Bytes
  | i, [] => (i, [])
  | i, c :: cs => if mem i = 0 ∧ c = charOne then skipZeros mem (i + 1) cs else (i, c :: cs)

/-- `b58check`: the version byte, or a negative number. -/
def b58check (bin : Bytes) (binsz : ℕ) (base58str : Bytes) : ℤ :=
  let binc := memAt stack bin
  if binsz < 4 then -4
  else
    let buf := myDblsha256 sha256 ((List.range (binsz - 4)).map binc)
    if (List.range 4).map (fun k => binc (binsz - 4 + k)) ≠ buf.toList.take 4 then -1
    else
      let (i, rest) := skipZeros binc 0 base58str
      if binc i = 0 ∨ rest.head? = some charOne then -3
      else (binc 0).toNat

/-- `decode_address`: the 33 bytes an address text stands for. -/
def decodeAddress (encoded : Bytes) : Option Address :=
  if encoded.length < encodedAddressLength then none
  else
    match b58tobin (addressLength + 1 + 4) encoded with
    | none => none
    | some (decoded, decsize) =>
      if b58check sha256 stack decoded decsize encoded ≠ addressVersion then none
      else some (Vector.ofFn fun i => decoded.getD (1 + i) 0)

lemma decodeAddress_short {encoded : Bytes} (h : encoded.length < 52) :
    decodeAddress sha256 stack encoded = none := by
  rw [decodeAddress, if_pos (show encoded.length < encodedAddressLength from h)]

end Check

end Libaergo
