import Libaergo.Lib.Varint

/-!
# The protobuf wire format

A message is a sequence of fields, each a number and a value of one of four wire types.  `encode`
writes the fields one after the other, `decode` is the reader every protobuf implementation shares:
it takes fields in any order, keeps unknown ones, and rejects a text that does not end with a field.
`decode_encode`: the writer's text reads back as the same fields.

Of a singular field a reader keeps the last occurrence, of a repeated one all of them, and an absent
one has its proto3 default (`numOf`, `bytesOf`, `allBytes`).
-/

namespace Libaergo.Lib.Wire

inductive Value where
  | varint (n : ℕ)
  | i64 (bs : Bytes)
  | len (bs : Bytes)
  | i32 (bs : Bytes)
  deriving DecidableEq

structure Field where
  num : ℕ
  val : Value
  deriving DecidableEq

def Value.wt : Value → ℕ
  | .varint _ => 0
  | .i64 _ => 1
  | .len _ => 2
  | .i32 _ => 5

/-- What follows the tag of a field. -/
def Value.payload : Value → Bytes
  | .varint n => Lib.varint n
  | .i64 bs => bs
  | .len bs => Lib.varint bs.length ++ bs
  | .i32 bs => bs

def Field.text (f : Field) : Bytes := Lib.varint (f.num * 8 + f.val.wt) ++ f.val.payload

def encode (fs : List Field) : Bytes := fs.flatMap Field.text

def takeBytes (n : ℕ) (bs : Bytes) : Option (Bytes × Bytes) :=
  if n ≤ bs.length then some (bs.take n, bs.drop n) else none

def readValue (wt : ℕ) (bs : Bytes) : Option (Value × Bytes) :=
  match wt with
  | 0 => (readVarint bs).map fun p => (.varint p.1, p.2)
  | 1 => (takeBytes 8 bs).map fun p => (.i64 p.1, p.2)
  | 2 => (readVarint bs).bind fun p => (takeBytes p.1 p.2).map fun q => (.len q.1, q.2)
  | 5 => (takeBytes 4 bs).map fun p => (.i32 p.1, p.2)
  | _ => none

/-- Reads one field; the number zero is refused. -/
def readField (bs : Bytes) : Option (Field × Bytes) :=
  (readVarint bs).bind fun p =>
    if p.1 / 8 = 0 then none
    else (readValue (p.1 % 8) p.2).map fun q => (⟨p.1 / 8, q.1⟩, q.2)

/-- Reads fields to the end of the text, at most `k` of them. -/
def readFields : ℕ → Bytes → Option (List Field)
  | _, [] => some []
  | 0, _ :: _ => none
  | k + 1, bs => (readField bs).bind fun p => (readFields k p.2).map (p.1 :: ·)

/-- **Reads a message.**  Every field takes a byte at least, so the length bounds their number. -/
def decode (bs : Bytes) : Option (List Field) := readFields bs.length bs

/-- What a singular number field number `k` is after one more field was read. -/
def Field.updNum (k d : ℕ) (f : Field) : ℕ :=
  match f.val with
  | .varint n => if f.num = k then n else d
  | _ => d

/-- The value of a singular number field: the last occurrence, or zero. -/
def numOf (k : ℕ) (fs : List Field) : ℕ := fs.foldl (Field.updNum k) 0

/-- What a singular bytes field number `k` is after one more field was read. -/
def Field.updBytes (k : ℕ) (d : Bytes) (f : Field) : Bytes :=
  match f.val with
  | .len bs => if f.num = k then bs else d
  | _ => d

/-- The value of a singular string or bytes field: the last occurrence, or nothing. -/
def bytesOf (k : ℕ) (fs : List Field) : Bytes := fs.foldl (Field.updBytes k) []

/-- The values of a repeated string, bytes or message field. -/
def allBytes (k : ℕ) (fs : List Field) : List Bytes :=
  fs.filterMap fun f => match f.val with | .len bs => if f.num = k then some bs else none | _ => none

/-! ### Reading back -/

/-- What the format can carry: the field number and every number in 64 bits, fixed-width values of
their width. -/
def Value.Ok : Value → Prop
  | .varint n => n < 2 ^ 64
  | .i64 bs => bs.length = 8
  | .len bs => bs.length < 2 ^ 64
  | .i32 bs => bs.length = 4

/-- A field the format can carry. -/
structure Field.Ok (f : Field) : Prop where
  pos : 0 < f.num
  lt : f.num < 2 ^ 29
  val : f.val.Ok

lemma takeBytes_append {n : ℕ} {as : Bytes} (bs : Bytes) (h : as.length = n) :
    takeBytes n (as ++ bs) = some (as, bs) := by
  subst h
  simp [takeBytes]

lemma readValue_payload {v : Value} (rest : Bytes) (h : v.Ok) :
    readValue v.wt (v.payload ++ rest) = some (v, rest) := by
  cases v with
  | varint n => simp [readValue, Value.wt, Value.payload, readVarint_varint rest h]
  | i64 bs => simp [readValue, Value.wt, Value.payload, takeBytes_append rest h]
  | len bs =>
    simp [readValue, Value.wt, Value.payload, readVarint_varint (bs ++ rest) h, takeBytes_append]
  | i32 bs => simp [readValue, Value.wt, Value.payload, takeBytes_append rest h]

lemma readField_text {f : Field} (rest : Bytes) (h : f.Ok) :
    readField (f.text ++ rest) = some (f, rest) := by
  have hwt : f.val.wt < 8 := by cases f.val <;> simp [Value.wt]
  have hlt := h.lt
  have htag : f.num * 8 + f.val.wt < 2 ^ 64 := by omega
  have hnum : (f.num * 8 + f.val.wt) / 8 = f.num := by omega
  have hty : (f.num * 8 + f.val.wt) % 8 = f.val.wt := by omega
  have hpos : f.num ≠ 0 := h.pos.ne'
  rw [readField, Field.text, List.append_assoc, readVarint_varint _ htag, Option.bind_some, hnum,
    hty, if_neg hpos, readValue_payload rest h.val, Option.map_some]

lemma text_ne_nil (f : Field) : f.text ≠ [] := by
  have := varint_length_pos (f.num * 8 + f.val.wt)
  intro h
  have hl : f.text.length = 0 := by rw [h]; rfl
  rw [Field.text, List.length_append] at hl
  omega

lemma readFields_encode {fs : List Field} (h : ∀ f ∈ fs, f.Ok) :
    ∀ k, fs.length ≤ k → readFields k (encode fs) = some fs := by
  induction fs with
  | nil => intro k _; cases k <;> rfl
  | cons f fs ih =>
    intro k hk
    obtain ⟨k, rfl⟩ : ∃ j, k = j + 1 := ⟨k - 1, by simp at hk; omega⟩
    have hf := h f (List.mem_cons_self ..)
    have ih := ih (fun g hg => h g (List.mem_cons_of_mem _ hg)) k (by simpa using hk)
    obtain ⟨b, bs, hb⟩ : ∃ b bs, encode (f :: fs) = b :: bs := by
      refine List.exists_cons_of_ne_nil ?_
      simp [encode, text_ne_nil]
    have hs : encode (f :: fs) = f.text ++ encode fs := rfl
    rw [hb, readFields, ← hb, hs, readField_text _ hf, Option.bind_some, ih, Option.map_some]
    simp

lemma length_le_encode (fs : List Field) : fs.length ≤ (encode fs).length := by
  induction fs with
  | nil => simp
  | cons f fs ih =>
    have hf : 0 < f.text.length := List.length_pos_iff.mpr (text_ne_nil f)
    have hs : encode (f :: fs) = f.text ++ encode fs := rfl
    rw [hs, List.length_append, List.length_cons]
    omega

/-- **A written message reads back.** -/
theorem decode_encode {fs : List Field} (h : ∀ f ∈ fs, f.Ok) : decode (encode fs) = some fs :=
  readFields_encode h _ (length_le_encode fs)

lemma encode_append (fs gs : List Field) : encode (fs ++ gs) = encode fs ++ encode gs := by
  simp [encode]

end Libaergo.Lib.Wire
