import Libaergo.Lib.Wire

/-!
# The nanopb encoder (`nanopb/pb_encode.c`)

An output stream either stores what is written to it, up to `max_size`, or has no callback and only
counts.  A submessage is encoded twice: on a counting stream for its length, then for its bytes.

A stream that refuses keeps its first error text, so an encoder is a function into
`Except String`.  `Emits e bs` says all there is to say about an encoder that writes a fixed text:
a counting stream counts it, a storing one appends it if it fits and refuses with "stream full"
otherwise.  The lemmas below give the `Emits` of every encoder from those of its parts.
-/

namespace Libaergo.Nanopb

open Lib

/-- `pb_ostream_t`.  `sizing` is the missing callback, `written` what went to the buffer. -/
structure OStream where
  sizing : Bool
  maxSize : ℕ
  written : Bytes
  bytesWritten : ℕ
  deriving DecidableEq

/-- An encoder: writes to the stream or refuses. -/
abbrev Encoder := OStream → Except String OStream

/-- `PB_OSTREAM_SIZING` -/
def ostreamSizing : OStream := ⟨true, 0, [], 0⟩

def pbOstreamFromBuffer (bufsize : ℕ) : OStream := ⟨false, bufsize, [], 0⟩

/-- `pb_write`: the buffer is not looked at when only counting. -/
def pbWrite (buf : Bytes) (count : ℕ) : Encoder := fun s =>
  if 0 < count ∧ s.sizing = false then
    if s.maxSize < s.bytesWritten + count then throw "stream full"
    else pure { s with written := s.written ++ buf.take count, bytesWritten := s.bytesWritten + count }
  else pure { s with bytesWritten := s.bytesWritten + count }

/-- The loop of `pb_encode_varint`: `while (value)`, at most the ten bytes of its buffer. -/
def varintLoop : ℕ → ℕ → Bytes
  | 0, _ => []
  | k + 1, value =>
    if value = 0 then [] else UInt8.ofNat ((value &&& 0x7F) ||| 0x80) :: varintLoop k (value >>> 7)

/-- `buffer[i-1] &= 0x7F` -/
def unsetTopBit : Bytes → Bytes
  | [] => []
  | [b] => [b &&& 0x7F]
  | b :: c :: bs => b :: unsetTopBit (c :: bs)

def pbEncodeVarint (value : ℕ) : Encoder :=
  if value ≤ 0x7F then pbWrite [UInt8.ofNat value] 1
  else
    let buffer := unsetTopBit (varintLoop 10 value)
    pbWrite buffer buffer.length

/-- The field types of `pb_type_t` that the messages of this repository use for encoding. -/
inductive LType where
  | bool | uvarint | bytes | string | submessage
  deriving DecidableEq

structure PbField where
  tag : ℕ
  ltype : LType
  deriving DecidableEq

def wireType : LType → ℕ
  | .bool | .uvarint => 0
  | .bytes | .string | .submessage => 2

def pbEncodeTag (wiretype fieldNumber : ℕ) : Encoder :=
  pbEncodeVarint ((fieldNumber <<< 3) ||| wiretype)

def pbEncodeTagForField (field : PbField) : Encoder := pbEncodeTag (wireType field.ltype) field.tag

def pbEncodeString (buffer : Bytes) : Encoder := fun s => do
  let s ← pbEncodeVarint buffer.length s
  pbWrite buffer buffer.length s

/-- What a message structure holds for a field: a static number or flag, or a callback. -/
inductive FieldData where
  | bool (value : Bool)
  | uvarint (value : ℕ)
  | callback (encode : Option (PbField → Encoder))

/-- `encode_field`: a static field is left out when it has its proto3 default value, a callback
field when no callback is set. -/
def encodeField (field : PbField) : FieldData → Encoder
  | .bool value, s =>
    if value = false then pure s
    else do
      let s ← pbEncodeTagForField field s
      pbEncodeVarint 1 s
  | .uvarint value, s =>
    if value = 0 then pure s
    else do
      let s ← pbEncodeTagForField field s
      pbEncodeVarint value s
  | .callback none, s => pure s
  | .callback (some encode), s => encode field s

/-- `pb_encode`: the fields in the order of the descriptor. -/
def pbEncode : List (PbField × FieldData) → Encoder
  | [], s => pure s
  | (field, data) :: rest, s => do
    let s ← encodeField field data s
    pbEncode rest s

def pbEncodeSubmessage (fields : List (PbField × FieldData)) : Encoder := fun s => do
  let sized ← pbEncode fields ostreamSizing
  let size := sized.bytesWritten
  let s ← pbEncodeVarint size s
  if s.sizing then pbWrite [] size s
  else if s.maxSize < s.bytesWritten + size then throw "stream full"
  else
    let sub ← pbEncode fields { s with maxSize := size, written := [], bytesWritten := 0 }
    if sub.bytesWritten ≠ size then throw "submsg size changed"
    else pure { s with written := s.written ++ sub.written
                       bytesWritten := s.bytesWritten + sub.bytesWritten }

/-! ### What an encoder emits -/

/-- **The encoder `e` writes the text `bs`** and nothing else: a counting stream counts its bytes, a
storing one appends them when they fit and refuses when they do not. -/
structure Emits (e : Encoder) (bs : Bytes) : Prop where
  sizing : ∀ s, s.sizing = true → e s = .ok { s with bytesWritten := s.bytesWritten + bs.length }
  fits : ∀ s, s.sizing = false → s.bytesWritten + bs.length ≤ s.maxSize →
    e s = .ok { s with written := s.written ++ bs, bytesWritten := s.bytesWritten + bs.length }
  full : ∀ s, s.sizing = false → s.bytesWritten ≤ s.maxSize → s.maxSize < s.bytesWritten + bs.length →
    e s = .error "stream full"

@[simp] lemma ok_bind {α β : Type} (a : α) (f : α → Except String β) :
    ((.ok a : Except String α) >>= f) = f a := rfl

lemma emits_pure : Emits (fun s => pure s) [] where
  sizing s _ := by simp [pure, Except.pure]
  fits s _ _ := by simp [pure, Except.pure]
  full s _ h h' := by simp at h'; omega

lemma Emits.bind {e f : Encoder} {as bs : Bytes} (he : Emits e as) (hf : Emits f bs) :
    Emits (fun s => e s >>= f) (as ++ bs) where
  sizing s hs := by
    rw [he.sizing s hs]
    refine (hf.sizing _ ?_).trans ?_
    · exact hs
    · simp [Nat.add_assoc]
  fits s hs h := by
    rw [List.length_append] at h
    rw [he.fits s hs (by omega)]
    refine (hf.fits _ ?_ ?_).trans ?_
    · exact hs
    · simpa [Nat.add_assoc] using h
    · simp [Nat.add_assoc]
  full s hs hle h := by
    rw [List.length_append] at h
    by_cases ha : s.bytesWritten + as.length ≤ s.maxSize
    · rw [he.fits s hs ha]
      refine hf.full _ ?_ ?_ ?_
      · exact hs
      · exact ha
      · simpa [Nat.add_assoc] using h
    · rw [he.full s hs hle (by omega)]
      rfl

lemma emits_pbWrite (bs : Bytes) : Emits (pbWrite bs bs.length) bs where
  sizing s hs := by simp [pbWrite, hs, pure, Except.pure]
  fits s hs h := by
    by_cases h0 : bs.length = 0
    · have hn : bs = [] := List.length_eq_zero_iff.mp h0
      subst hn
      simp [pbWrite, pure, Except.pure]
    · have hpos : 0 < bs.length := by omega
      simp [pbWrite, hs, hpos, Nat.not_lt.mpr h, pure, Except.pure]
  full s hs hle h := by
    have hpos : 0 < bs.length := by omega
    simp [pbWrite, hs, hpos, h, throw, throwThe, MonadExceptOf.throw]

/-! ### Varints, tags and strings -/

lemma unsetTopBit_varintLoop (k n : ℕ) (h0 : n ≠ 0) (h : n < 128 ^ k) :
    unsetTopBit (varintLoop k n) = varintGroups k n := by
  induction k generalizing n with
  | zero => simp at h; omega
  | succ k ih =>
    have hlow : n &&& 0x7F = n % 128 := Nat.and_two_pow_sub_one_eq_mod n 7
    have hor : n % 128 ||| 0x80 = n % 128 + 128 := by
      have := Nat.two_pow_add_eq_or_of_lt (i := 7) (b := n % 128) (by omega) 1
      rw [Nat.or_comm, Nat.add_comm]
      exact this.symm
    have hsh : n >>> 7 = n / 128 := Nat.shiftRight_eq_div_pow n 7
    rw [varintLoop, if_neg h0, hlow, hor, hsh, varintGroups]
    by_cases hn : n < 128
    · have hz : n / 128 = 0 := by omega
      have hl : varintLoop k (n / 128) = [] := by cases k <;> simp [varintLoop, hz]
      have hb : UInt8.ofNat (n % 128 + 128) &&& 0x7F = UInt8.ofNat n := by
        apply UInt8.toNat_inj.mp
        rw [UInt8.toNat_and]
        have hm : (UInt8.ofNat (n % 128 + 128)).toNat = n % 128 + 128 := by simp; omega
        have ha := Nat.and_two_pow_sub_one_eq_mod (n % 128 + 128) 7
        simp only [hm, UInt8.toNat_ofNat', Nat.reducePow, Nat.reduceSub, UInt8.reduceToNat] at ha ⊢
        omega
      rw [hl, unsetTopBit, hb, if_pos hn]
    · have hq : n / 128 < 128 ^ k := by
        rw [Nat.div_lt_iff_lt_mul (by omega), ← pow_succ]
        exact h
      rw [if_neg hn, ← ih (n / 128) (by omega) hq]
      obtain ⟨j, rfl⟩ : ∃ j, k = j + 1 := by
        cases k with
        | zero => simp at hq; omega
        | succ j => exact ⟨j, rfl⟩
      rw [varintLoop, if_neg (by omega : ¬ n / 128 = 0), unsetTopBit]

lemma emits_pbEncodeVarint {n : ℕ} (h : n < 2 ^ 64) : Emits (pbEncodeVarint n) (varint n) := by
  unfold pbEncodeVarint
  by_cases hn : n ≤ 0x7F
  · rw [if_pos hn, varint_of_lt (by omega)]
    exact emits_pbWrite [UInt8.ofNat n]
  · have hl : unsetTopBit (varintLoop 10 n) = varint n :=
      unsetTopBit_varintLoop 10 n (by omega) (by omega)
    rw [if_neg hn, hl]
    exact emits_pbWrite _

lemma emits_pbEncodeTagForField (field : PbField) (h : field.tag < 2 ^ 29) :
    Emits (pbEncodeTagForField field) (varint (field.tag * 8 + wireType field.ltype)) := by
  have hw : wireType field.ltype < 8 := by cases field.ltype <;> simp [wireType]
  have hor : (field.tag <<< 3) ||| wireType field.ltype = field.tag * 8 + wireType field.ltype := by
    rw [Nat.shiftLeft_eq, Nat.mul_comm]
    rw [← Nat.two_pow_add_eq_or_of_lt (i := 3) hw field.tag]
  rw [pbEncodeTagForField, pbEncodeTag, hor]
  exact emits_pbEncodeVarint (by omega)

lemma emits_pbEncodeString {bs : Bytes} (h : bs.length < 2 ^ 64) :
    Emits (pbEncodeString bs) (varint bs.length ++ bs) :=
  (emits_pbEncodeVarint h).bind (emits_pbWrite bs)

/-! ### Fields and messages -/

lemma emits_encodeField_uvarint (field : PbField) {n : ℕ} (ht : field.tag < 2 ^ 29)
    (hl : field.ltype = .uvarint) (h : n < 2 ^ 64) :
    Emits (encodeField field (.uvarint n))
      (Wire.encode (if n = 0 then [] else [⟨field.tag, .varint n⟩])) := by
  by_cases hn : n = 0
  · subst hn
    exact emits_pure
  · have := (emits_pbEncodeTagForField field ht).bind (emits_pbEncodeVarint h)
    rw [hl] at this
    have he : encodeField field (.uvarint n) =
        fun s => pbEncodeTagForField field s >>= pbEncodeVarint n := by
      funext s
      simp [encodeField, hn]
    rw [he, if_neg hn]
    simpa [Wire.encode, Wire.Field.text, Wire.Value.wt, Wire.Value.payload, wireType] using this

lemma pbEncode_nil : Emits (pbEncode []) [] := emits_pure

lemma Emits.cons {field : PbField} {data : FieldData} {rest : List (PbField × FieldData)}
    {as bs : Bytes} (h : Emits (encodeField field data) as) (hr : Emits (pbEncode rest) bs) :
    Emits (pbEncode ((field, data) :: rest)) (as ++ bs) :=
  h.bind hr

lemma Emits.callback {field : PbField} {encode : PbField → Encoder} {bs : Bytes}
    (h : Emits (encode field) bs) : Emits (encodeField field (.callback (some encode))) bs := h

/-- **A submessage is its length and its text.**  The two passes agree, so the size check never
fires. -/
lemma Emits.submessage {fields : List (PbField × FieldData)} {bs : Bytes}
    (h : Emits (pbEncode fields) bs) (hlt : bs.length < 2 ^ 64) :
    Emits (pbEncodeSubmessage fields) (varint bs.length ++ bs) := by
  have hv := emits_pbEncodeVarint hlt
  have hsz : pbEncode fields ostreamSizing = .ok { ostreamSizing with bytesWritten := bs.length } := by
    simpa [ostreamSizing] using h.sizing ostreamSizing rfl
  have hbody : ∀ s, pbEncodeSubmessage fields s = (pbEncodeVarint bs.length s >>= fun s =>
      if s.sizing then pbWrite [] bs.length s
      else if s.maxSize < s.bytesWritten + bs.length then throw "stream full"
      else
        pbEncode fields { s with maxSize := bs.length, written := [], bytesWritten := 0 } >>=
          fun sub =>
            if sub.bytesWritten ≠ bs.length then throw "submsg size changed"
            else pure { s with written := s.written ++ sub.written
                               bytesWritten := s.bytesWritten + sub.bytesWritten }) := by
    intro s
    rw [pbEncodeSubmessage, hsz]
    rfl
  refine ⟨fun s hs => ?_, fun s hs hfit => ?_, fun s hs hle hfull => ?_⟩
  · rw [hbody, hv.sizing s hs]
    show (if s.sizing then _ else _) = _
    simp [hs, pbWrite, pure, Except.pure, Nat.add_assoc]
  · rw [List.length_append] at hfit
    rw [hbody, hv.fits s hs (by omega)]
    have hsub := h.fits ⟨false, bs.length, [], 0⟩ rfl (by simp)
    show (if s.sizing then _ else _) = _
    rw [hs, if_neg (by simp), if_neg (by simpa [Nat.add_assoc] using hfit), hsub, ok_bind]
    simp [pure, Except.pure, Nat.add_assoc]
  · rw [List.length_append] at hfull
    by_cases hfit : s.bytesWritten + (varint bs.length).length ≤ s.maxSize
    · rw [hbody, hv.fits s hs hfit]
      show (if s.sizing then _ else _) = _
      rw [hs, if_neg (by simp), if_pos (by simpa [Nat.add_assoc] using hfull)]
      rfl
    · rw [hbody, hv.full s hs hle (by omega)]
      rfl

/-- Encoding into a buffer of `n` bytes succeeds exactly when the text fits. -/
lemma Emits.fromBuffer {e : Encoder} {bs : Bytes} (h : Emits e bs) (n : ℕ) :
    e (pbOstreamFromBuffer n) =
      if bs.length ≤ n then .ok ⟨false, n, bs, bs.length⟩ else .error "stream full" := by
  by_cases hn : bs.length ≤ n
  · rw [if_pos hn, h.fits _ rfl (by simpa [pbOstreamFromBuffer] using hn)]
    simp [pbOstreamFromBuffer]
  · rw [if_neg hn]
    exact h.full _ rfl (by simp [pbOstreamFromBuffer]) (by simp [pbOstreamFromBuffer]; omega)

end Libaergo.Nanopb
