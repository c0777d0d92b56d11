import Libaergo.Lib.Wire

/-!
# The nanopb decoder (`nanopb/pb_decode.c`)

An input stream is what is left of it.  A message is decoded field by field: the static fields of its
structure, and the fields for which a callback is set, which gets the bytes of the field as a stream of its
own.  A zero byte where a tag is expected ends the message.

What a callback does with the bytes is its own matter: the decoder hands on a state that it does not look
at.  Callbacks that go along with each other therefore make decoders that do (`Callback.Sim`).
-/

namespace Libaergo.Nanopb

open Lib

variable {σ τ : Type*}

/-! ### Streams -/

def pbRead (count : ℕ) (stream : Bytes) : Option (Bytes × Bytes) := Wire.takeBytes count stream

/-- A byte past the 32 bits is neither zero nor the extension of the sign. -/
def varint32Overflow (bitpos result : ℕ) (byte : UInt8) : Bool :=
  32 ≤ bitpos && byte &&& 0x7F ≠ 0 &&
    (result >>> 31 = 0 || byte ≠ if bitpos < 63 then 0xFF else 0x01)

/-- `result |= (uint32_t)(byte & 0x7F) << bitpos` -/
def varint32Add (bitpos result : ℕ) (byte : UInt8) : ℕ :=
  if 32 ≤ bitpos then result else result ||| ((byte &&& 0x7F).toNat <<< bitpos) % 2 ^ 32

/-- The loop of `pb_decode_varint32_eof`; `bitpos` is a byte. -/
def varint32Loop : ℕ → ℕ → Bytes → Option (ℕ × Bytes)
  | _, _, [] => none
  | bitpos, result, byte :: stream =>
    if varint32Overflow bitpos result byte then none
    else if byte &&& 0x80 ≠ 0 then
      varint32Loop ((bitpos + 7) % 256) (varint32Add bitpos result byte) stream
    else if (bitpos + 7) % 256 = 35 ∧ byte &&& 0x70 ≠ 0 then none
    else some (varint32Add bitpos result byte, stream)

def pbDecodeVarint32 : Bytes → Option (ℕ × Bytes)
  | [] => none
  | byte :: stream =>
    if byte &&& 0x80 = 0 then some (byte.toNat, stream)
    else varint32Loop 7 (byte &&& 0x7F).toNat stream

def pbSkipVarint : Bytes → Option Bytes
  | [] => none
  | byte :: stream => if byte &&& 0x80 ≠ 0 then pbSkipVarint stream else some stream

/-- `pb_make_string_substream`: the substream, and the stream behind it. -/
def pbMakeStringSubstream (stream : Bytes) : Option (Bytes × Bytes) := do
  let (size, stream) ← pbDecodeVarint32 stream
  pbRead size stream

def pbSkipString (stream : Bytes) : Option Bytes := (pbMakeStringSubstream stream).map Prod.snd

def pbSkipField (wireType : ℕ) (stream : Bytes) : Option Bytes :=
  match wireType with
  | 0 => pbSkipVarint stream
  | 1 => (pbRead 8 stream).map Prod.snd
  | 2 => pbSkipString stream
  | 5 => (pbRead 4 stream).map Prod.snd
  | _ => none

/-- The bytes of a varint, at most so many. -/
def rawVarint : ℕ → Bytes → Option (Bytes × Bytes)
  | 0, _ => none
  | _ + 1, [] => none
  | k + 1, byte :: stream =>
    if byte &&& 0x80 = 0 then some ([byte], stream)
    else (rawVarint k stream).map fun p => (byte :: p.1, p.2)

/-- `read_raw_value` into a buffer of ten bytes. -/
def readRawValue (wireType : ℕ) (stream : Bytes) : Option (Bytes × Bytes) :=
  match wireType with
  | 0 => rawVarint 10 stream
  | 1 => pbRead 8 stream
  | 5 => pbRead 4 stream
  | _ => none

/-! ### Fields -/

/-- A `decode` callback: the state it leaves, and what it leaves of its stream unless it fails. -/
abbrev Callback (σ : Type*) := σ → Bytes → σ × Option Bytes

/-- The `pb_type_t` of the fields in the messages of this repository, as far as decoding goes. -/
inductive FieldType where
  | bool
  | uint32
  | uint64
  | int32
  | int64
  | callback
  | message (fields : List (ℕ × FieldType))

abbrev Fields := List (ℕ × FieldType)

/-- `pb_field_iter_find` -/
def Fields.find (fields : Fields) (tag : ℕ) : Option FieldType :=
  (List.find? (fun field => field.1 = tag) fields).map Prod.snd

/-- What the structure of a message has for its fields, which are told by the tags that lead to them: the
callbacks that are set, and where the numbers are stored. -/
structure Dest (σ : Type*) where
  callback : List ℕ → Option (Callback σ)
  store : List ℕ → ℤ → σ → σ

/-- The structure of a submessage. -/
def Dest.sub (dest : Dest σ) (tag : ℕ) : Dest σ :=
  ⟨fun path => dest.callback (tag :: path), fun path => dest.store (tag :: path)⟩

/-- `do { … } while (substream.bytes_left)`; a callback that reads nothing would not return. -/
def callbackLoop (decode : Callback σ) : ℕ → Callback σ
  | 0, state, _ => (state, none)
  | k + 1, state, substream =>
    match decode state substream with
    | (state, none) => (state, none)
    | (state, some []) => (state, some [])
    | (state, some (byte :: rest)) => callbackLoop decode k state (byte :: rest)

def decodeCallbackField (decode : Callback σ) (wireType : ℕ) : Callback σ := fun state stream =>
  if wireType = 2 then
    match pbMakeStringSubstream stream with
    | none => (state, none)
    | some (substream, rest) =>
      match callbackLoop decode (substream.length + 1) state substream with
      | (state, none) => (state, none)
      | (state, some _) => (state, some rest)
  else
    match readRawValue wireType stream with
    | none => (state, none)
    | some (raw, rest) =>
      match decode state raw with
      | (state, none) => (state, none)
      | (state, some _) => (state, some rest)

def pbDecSubmessage (decode : Callback σ) : Callback σ := fun state stream =>
  match pbMakeStringSubstream stream with
  | none => (state, none)
  | some (substream, rest) =>
    match decode state substream with
    | (state, none) => (state, none)
    | (state, some _) => (state, some rest)

/-- `pb_dec_bool`, `pb_dec_uvarint` and `pb_dec_varint`, which do not look at the wire type: the number and
what is left of the stream.  What is too large for 32 bits without sign is cut, and then refused. -/
def readNumber : FieldType → Bytes → Option (ℤ × Option Bytes)
  | .bool, stream => (pbDecodeVarint32 stream).map fun p => (if p.1 = 0 then 0 else 1, some p.2)
  | .uint32, stream =>
    (readVarint stream).map fun p => ((p.1 % 2 ^ 32 : ℕ), if p.1 < 2 ^ 32 then some p.2 else none)
  | .int32, stream => (readVarint stream).map fun p => ((BitVec.ofNat 32 p.1).toInt, some p.2)
  | .int64, stream => (readVarint stream).map fun p => ((BitVec.ofNat 64 p.1).toInt, some p.2)
  | _, stream => (readVarint stream).map fun p => ((p.1 : ℤ), some p.2)

/-- `decode_static_field` of a number. -/
def decodeNumber (store : ℤ → σ → σ) (type : FieldType) : Callback σ := fun state stream =>
  match readNumber type stream with
  | none => (state, none)
  | some (value, rest) => (store value state, rest)

def decodeField (submessage : Fields → Callback σ) (decode : Option (Callback σ)) (store : ℤ → σ → σ)
    (wireType : ℕ) : FieldType → Callback σ
  | .message fields, state, stream => pbDecSubmessage (submessage fields) state stream
  | .callback, state, stream =>
    match decode with
    | none => (state, pbSkipField wireType stream)
    | some decode => decodeCallbackField decode wireType state stream
  | type, state, stream => decodeNumber store type state stream

/-- The loop of `pb_decode_noinit`.  None of the messages has required fields or extensions; repeated
fields have callbacks, whose counts stay at zero. -/
def pbDecodeLoop : ℕ → Fields → Dest σ → Callback σ
  | _, _, _, state, [] => (state, some [])
  | 0, _, _, state, _ :: _ => (state, none)
  | k + 1, fields, dest, state, byte :: stream =>
    match pbDecodeVarint32 (byte :: stream) with
    | none => (state, none)
    | some (key, rest) =>
      if key = 0 then (state, some rest)
      else
        match fields.find (key / 8) with
        | none =>
          match pbSkipField (key % 8) rest with
          | none => (state, none)
          | some rest => pbDecodeLoop k fields dest state rest
        | some type =>
          match decodeField (fun fields => pbDecodeLoop k fields (dest.sub (key / 8)))
            (dest.callback [key / 8]) (dest.store [key / 8]) (key % 8) type state rest with
          | (state, none) => (state, none)
          | (state, some rest) => pbDecodeLoop k fields dest state rest

/-- **`pb_decode`**: every field takes a byte at least, so the length bounds their number. -/
def pbDecode (fields : Fields) (dest : Dest σ) : Callback σ :=
  fun state stream => pbDecodeLoop stream.length fields dest state stream

/-- The only callback that is set, and numbers that are not looked at. -/
def setCallback (tag : ℕ) (decode : Callback σ) : Dest σ :=
  ⟨fun path => if path = [tag] then some decode else none, fun _ _ state => state⟩

/-! ### What is left of a stream -/

section Lengths

variable {stream rest part : Bytes} {n wireType : ℕ}

lemma pbRead_length (h : pbRead n stream = some (part, rest)) :
    part.length = n ∧ rest.length + n = stream.length := by
  obtain ⟨hle, h⟩ := Option.ite_none_right_eq_some.mp h
  obtain ⟨rfl, rfl⟩ := Prod.mk.inj (Option.some.inj h)
  rw [List.length_take, List.length_drop]
  omega

lemma varint32Loop_length {bitpos result : ℕ} (h : varint32Loop bitpos result stream = some (n, rest)) :
    rest.length < stream.length := by
  induction stream generalizing bitpos result with
  | nil => cases h
  | cons byte stream ih =>
    rw [varint32Loop] at h
    rw [List.length_cons]
    split_ifs at h with _ hmore _
    · exact (ih h).trans (Nat.lt_succ_self _)
    · obtain ⟨-, rfl⟩ := Prod.mk.inj (Option.some.inj h)
      exact Nat.lt_succ_self _

lemma pbDecodeVarint32_length (h : pbDecodeVarint32 stream = some (n, rest)) :
    rest.length < stream.length := by
  cases stream with
  | nil => cases h
  | cons byte stream =>
    rw [pbDecodeVarint32] at h
    rw [List.length_cons]
    split_ifs at h
    · obtain ⟨-, rfl⟩ := Prod.mk.inj (Option.some.inj h)
      exact Nat.lt_succ_self _
    · exact (varint32Loop_length h).trans (Nat.lt_succ_self _)

lemma pbMakeStringSubstream_length (h : pbMakeStringSubstream stream = some (part, rest)) :
    part.length + rest.length < stream.length := by
  obtain ⟨⟨size, behind⟩, hsize, h⟩ := Option.bind_eq_some_iff.mp h
  have hlt := pbDecodeVarint32_length hsize
  obtain ⟨hpart, hrest⟩ := pbRead_length h
  omega

lemma pbSkipVarint_length (h : pbSkipVarint stream = some rest) : rest.length < stream.length := by
  induction stream with
  | nil => cases h
  | cons byte stream ih =>
    rw [pbSkipVarint] at h
    rw [List.length_cons]
    split_ifs at h
    · exact (ih h).trans (Nat.lt_succ_self _)
    · obtain rfl := Option.some.inj h
      exact Nat.lt_succ_self _

lemma pbRead_map_length (hn : 0 < n) (h : (pbRead n stream).map Prod.snd = some rest) :
    rest.length < stream.length := by
  obtain ⟨⟨part, behind⟩, hread, rfl⟩ := Option.map_eq_some_iff.mp h
  obtain ⟨-, hlen⟩ := pbRead_length hread
  show behind.length < stream.length
  omega

lemma pbSkipField_length (h : pbSkipField wireType stream = some rest) : rest.length < stream.length := by
  unfold pbSkipField at h
  split at h
  · exact pbSkipVarint_length h
  · exact pbRead_map_length (by decide) h
  · obtain ⟨⟨part, behind⟩, hsub, rfl⟩ := Option.map_eq_some_iff.mp h
    exact (Nat.le_add_left _ _).trans_lt (pbMakeStringSubstream_length hsub)
  · exact pbRead_map_length (by decide) h
  · cases h

lemma rawVarint_length {k : ℕ} (h : rawVarint k stream = some (part, rest)) :
    0 < part.length ∧ part.length + rest.length = stream.length := by
  induction k generalizing stream part with
  | zero => cases h
  | succ k ih =>
    cases stream with
    | nil => cases h
    | cons byte stream =>
      rw [rawVarint] at h
      split_ifs at h
      · obtain ⟨rfl, rfl⟩ := Prod.mk.inj (Option.some.inj h)
        exact ⟨Nat.one_pos, Nat.add_comm _ _⟩
      · obtain ⟨⟨raw, behind⟩, hraw, h⟩ := Option.map_eq_some_iff.mp h
        obtain ⟨rfl, rfl⟩ := Prod.mk.inj h
        obtain ⟨-, hlen⟩ := ih hraw
        refine ⟨Nat.succ_pos _, ?_⟩
        rw [List.length_cons, List.length_cons, Nat.succ_add, hlen]

lemma readRawValue_length (h : readRawValue wireType stream = some (part, rest)) :
    part.length + rest.length = stream.length ∧ rest.length < stream.length := by
  unfold readRawValue at h
  split at h
  · obtain ⟨hpos, hlen⟩ := rawVarint_length h
    omega
  · obtain ⟨hpart, hlen⟩ := pbRead_length h
    omega
  · obtain ⟨hpart, hlen⟩ := pbRead_length h
    omega
  · cases h

lemma readGroups_length {k : ℕ} (h : readGroups k stream = some (n, rest)) :
    rest.length < stream.length := by
  induction k generalizing stream n with
  | zero => cases h
  | succ k ih =>
    cases stream with
    | nil => cases h
    | cons byte stream =>
      rw [readGroups] at h
      rw [List.length_cons]
      split_ifs at h
      · obtain ⟨-, rfl⟩ := Prod.mk.inj (Option.some.inj h)
        exact Nat.lt_succ_self _
      · obtain ⟨⟨m, behind⟩, hgroups, h⟩ := Option.map_eq_some_iff.mp h
        obtain ⟨-, rfl⟩ := Prod.mk.inj h
        exact (ih hgroups).trans (Nat.lt_succ_self _)

lemma readVarint_length (h : readVarint stream = some (n, rest)) : rest.length < stream.length := by
  obtain ⟨⟨m, behind⟩, hgroups, h⟩ := Option.map_eq_some_iff.mp h
  obtain ⟨-, rfl⟩ := Prod.mk.inj h
  exact readGroups_length hgroups

lemma readNumber_length {type : FieldType} {value : ℤ}
    (h : readNumber type stream = some (value, some rest)) : rest.length < stream.length := by
  unfold readNumber at h
  split at h
  · obtain ⟨p, hp, h⟩ := Option.map_eq_some_iff.mp h
    obtain ⟨-, h⟩ := Prod.mk.inj h
    obtain rfl := Option.some.inj h
    exact pbDecodeVarint32_length hp
  · obtain ⟨p, hp, h⟩ := Option.map_eq_some_iff.mp h
    obtain ⟨-, h⟩ := Option.ite_none_right_eq_some.mp (Prod.mk.inj h).2
    obtain rfl := Option.some.inj h
    exact readVarint_length hp
  all_goals
    obtain ⟨p, hp, h⟩ := Option.map_eq_some_iff.mp h
    obtain ⟨-, h⟩ := Prod.mk.inj h
    obtain rfl := Option.some.inj h
    exact readVarint_length hp

end Lengths

/-! ### What a decoder keeps -/

/-- What the callback finds of its state it leaves. -/
def Callback.Keeps (P : σ → Prop) (f : Callback σ) : Prop := ∀ s stream, P s → P (f s stream).1

/-- So do all callbacks and stores. -/
structure Dest.Keeps (P : σ → Prop) (dest : Dest σ) : Prop where
  callback : ∀ path f, dest.callback path = some f → f.Keeps P
  store : ∀ path v s, P s → P (dest.store path v s)

section Keeps

variable {P : σ → Prop} {f : Callback σ} {dest : Dest σ}

lemma Dest.Keeps.sub (h : dest.Keeps P) (tag : ℕ) : (dest.sub tag).Keeps P :=
  ⟨fun path => h.callback (tag :: path), fun path => h.store (tag :: path)⟩

lemma setCallback_keeps (h : f.Keeps P) (tag : ℕ) : (setCallback tag f).Keeps P := by
  refine ⟨fun path g hg => ?_, fun _ _ _ hs => hs⟩
  obtain ⟨-, hfg⟩ := Option.ite_none_right_eq_some.mp hg
  exact Option.some.inj hfg ▸ h

lemma callbackLoop_keeps (h : f.Keeps P) (k : ℕ) : (callbackLoop f k).Keeps P := by
  induction k with
  | zero => exact fun s stream hs => hs
  | succ k ih =>
    intro s stream hs
    have hf := h s stream hs
    rw [callbackLoop]
    generalize f s stream = result at hf ⊢
    rcases result with ⟨s', _ | _ | ⟨byte, rest⟩⟩
    · exact hf
    · exact hf
    · exact ih s' (byte :: rest) hf

lemma Callback.Keeps.substream (h : f.Keeps P) {s : σ} (hs : P s) (part rest : Bytes) :
    P (match f s part with
      | (s, none) => (s, none)
      | (s, some _) => (s, some rest) : σ × Option Bytes).1 := by
  have hf := h s part hs
  generalize f s part = result at hf ⊢
  rcases result with ⟨s', _ | left⟩ <;> exact hf

lemma decodeCallbackField_keeps (h : f.Keeps P) (wireType : ℕ) : (decodeCallbackField f wireType).Keeps P := by
  intro s stream hs
  unfold decodeCallbackField
  split
  · rcases pbMakeStringSubstream stream with _ | ⟨part, rest⟩
    · exact hs
    · exact (callbackLoop_keeps h _).substream hs part rest
  · rcases readRawValue wireType stream with _ | ⟨raw, rest⟩
    · exact hs
    · exact h.substream hs raw rest

lemma pbDecSubmessage_keeps (h : f.Keeps P) : (pbDecSubmessage f).Keeps P := by
  intro s stream hs
  unfold pbDecSubmessage
  rcases pbMakeStringSubstream stream with _ | ⟨part, rest⟩
  · exact hs
  · exact h.substream hs part rest

lemma decodeNumber_keeps {store : ℤ → σ → σ} (h : ∀ v s, P s → P (store v s)) (type : FieldType) :
    Callback.Keeps P (decodeNumber store type) := by
  intro s stream hs
  unfold decodeNumber
  rcases readNumber type stream with _ | ⟨value, rest⟩
  · exact hs
  · exact h value s hs

lemma decodeField_keeps {sub : Fields → Callback σ} {decode : Option (Callback σ)} {store : ℤ → σ → σ}
    (hsub : ∀ fields, (sub fields).Keeps P) (hdecode : ∀ f, decode = some f → f.Keeps P)
    (hstore : ∀ v s, P s → P (store v s)) (wireType : ℕ) (type : FieldType) :
    Callback.Keeps P (decodeField sub decode store wireType type) := by
  cases type with
  | message fields => exact pbDecSubmessage_keeps (hsub fields)
  | callback =>
    cases decode with
    | none => exact fun s stream hs => hs
    | some f => exact decodeCallbackField_keeps (hdecode f rfl) wireType
  | bool => exact decodeNumber_keeps hstore .bool
  | uint32 => exact decodeNumber_keeps hstore .uint32
  | uint64 => exact decodeNumber_keeps hstore .uint64
  | int32 => exact decodeNumber_keeps hstore .int32
  | int64 => exact decodeNumber_keeps hstore .int64

lemma pbDecodeLoop_keeps (h : dest.Keeps P) (k : ℕ) (fields : Fields) :
    Callback.Keeps P (pbDecodeLoop k fields dest) := by
  induction k generalizing fields dest with
  | zero =>
    intro s stream hs
    cases stream <;> exact hs
  | succ k ih =>
    intro s stream hs
    cases stream with
    | nil => exact hs
    | cons byte stream =>
      rw [pbDecodeLoop]
      rcases pbDecodeVarint32 (byte :: stream) with _ | ⟨key, rest⟩
      · exact hs
      · dsimp only
        split
        · exact hs
        · cases fields.find (key / 8) with
          | none =>
            cases pbSkipField (key % 8) rest with
            | none => exact hs
            | some rest => exact ih h fields s rest hs
          | some type =>
            have hfield := decodeField_keeps (fun fields => ih (h.sub (key / 8)) fields)
              (h.callback [key / 8]) (h.store [key / 8]) (key % 8) type s rest hs
            dsimp only
            generalize decodeField _ _ _ _ type s rest = result at hfield ⊢
            rcases result with ⟨s', _ | behind⟩
            · exact hfield
            · exact ih h fields s' behind hfield

/-- **What all callbacks and stores keep, the decoder keeps.** -/
theorem pbDecode_keeps (h : dest.Keeps P) (fields : Fields) : Callback.Keeps P (pbDecode fields dest) :=
  fun s stream => pbDecodeLoop_keeps h stream.length fields s stream

end Keeps

/-! ### Callbacks that go along with each other -/

/-- On streams of that length the callbacks leave related states related and the same rest of the stream,
of which they read a byte at least, unless it is empty. -/
def Callback.Sim (R : σ → τ → Prop) (n : ℕ) (f : Callback σ) (g : Callback τ) : Prop :=
  ∀ s t stream, stream.length ≤ n → R s t →
    R (f s stream).1 (g t stream).1 ∧ (f s stream).2 = (g t stream).2 ∧
      ∀ rest, (f s stream).2 = some rest → rest.length ≤ stream.length - 1

/-- The same, unless the first fails where the second goes on, and leaves states that are told apart. -/
def Callback.SimUnless (R bad : σ → τ → Prop) (n : ℕ) (f : Callback σ) (g : Callback τ) : Prop :=
  ∀ s t stream, stream.length ≤ n → R s t →
    (R (f s stream).1 (g t stream).1 ∧ (f s stream).2 = (g t stream).2 ∨
      (f s stream).2 = none ∧ bad (f s stream).1 (g t stream).1) ∧
      ∀ rest, (f s stream).2 = some rest → rest.length ≤ stream.length - 1

/-- The same fields have a callback, the callbacks go along with each other, and the stores keep related
states related. -/
structure DestSim (R bad : σ → τ → Prop) (n : ℕ) (c : Dest σ) (d : Dest τ) : Prop where
  callback : ∀ path, c.callback path = none ∧ d.callback path = none ∨
    ∃ f g, c.callback path = some f ∧ d.callback path = some g ∧ f.SimUnless R bad n g
  store : ∀ path v s t, R s t → R (c.store path v s) (d.store path v t)

section Sim

variable {R bad : σ → τ → Prop} {n m : ℕ} {f : Callback σ} {g : Callback τ} {c : Dest σ} {d : Dest τ}

lemma simUnless_iff : f.SimUnless R (fun _ _ => False) n g ↔ f.Sim R n g := by
  refine forall_congr' fun s => forall_congr' fun t => forall_congr' fun stream => forall_congr' fun _ =>
    forall_congr' fun _ => ?_
  rw [and_false, or_false, and_assoc]

lemma Callback.SimUnless.mono (h : f.SimUnless R bad n g) (hm : m ≤ n) : f.SimUnless R bad m g :=
  fun s t stream hstream => h s t stream (hstream.trans hm)

lemma DestSim.mono (h : DestSim R bad n c d) (hm : m ≤ n) : DestSim R bad m c d := by
  refine ⟨fun path => ?_, h.store⟩
  rcases h.callback path with hnone | ⟨f, g, hf, hg, hsim⟩
  · exact .inl hnone
  · exact .inr ⟨f, g, hf, hg, hsim.mono hm⟩

lemma DestSim.sub (h : DestSim R bad n c d) (tag : ℕ) : DestSim R bad n (c.sub tag) (d.sub tag) :=
  ⟨fun path => h.callback (tag :: path), fun path => h.store (tag :: path)⟩

lemma setCallback_simUnless (h : f.SimUnless R bad n g) (tag : ℕ) :
    DestSim R bad n (setCallback tag f) (setCallback tag g) := by
  refine ⟨fun path => ?_, fun _ _ _ _ hst => hst⟩
  unfold setCallback
  dsimp only
  split
  · exact .inr ⟨f, g, rfl, rfl, h⟩
  · exact .inl ⟨rfl, rfl⟩

lemma setCallback_sim (h : f.Sim R n g) (tag : ℕ) :
    DestSim R (fun _ _ => False) n (setCallback tag f) (setCallback tag g) :=
  setCallback_simUnless (simUnless_iff.mpr h) tag

lemma Callback.SimUnless.cases (h : f.SimUnless R bad n g) {s : σ} {t : τ} {stream : Bytes}
    (hn : stream.length ≤ n) (hst : R s t) : ∃ s' t' o o', f s stream = (s', o) ∧ g t stream = (t', o') ∧
      (R s' t' ∧ o = o' ∨ o = none ∧ bad s' t') ∧
      ∀ rest, o = some rest → rest.length ≤ stream.length - 1 := by
  obtain ⟨hR, hlen⟩ := h s t stream hn hst
  exact ⟨_, _, _, _, rfl, rfl, hR, hlen⟩

lemma Callback.Sim.cases (h : f.Sim R n g) {s : σ} {t : τ} {stream : Bytes} (hn : stream.length ≤ n)
    (hst : R s t) : ∃ s' t' o, f s stream = (s', o) ∧ g t stream = (t', o) ∧ R s' t' ∧
      ∀ rest, o = some rest → rest.length ≤ stream.length - 1 := by
  obtain ⟨hR, heq, hlen⟩ := h s t stream hn hst
  exact ⟨_, _, _, rfl, Prod.ext rfl heq.symm, hR, hlen⟩

/-- The second keeps what tells the states apart. -/
def Callback.Stays (bad : σ → τ → Prop) (g : Callback τ) : Prop := ∀ s, g.Keeps (bad s)

/-- The fuel does not matter, where it is more than the length of the stream. -/
lemma callbackLoop_simUnless (h : f.SimUnless R bad n g) (hbad : g.Stays bad) {k l : ℕ} (hk : n < k)
    (hl : n < l) : Callback.SimUnless R bad n (callbackLoop f k) (callbackLoop g l) := by
  induction k generalizing n l with
  | zero => exact absurd hk n.not_lt_zero
  | succ k ih =>
    obtain ⟨l, rfl⟩ := Nat.exists_eq_succ_of_ne_zero (Nat.zero_lt_of_lt hl).ne'
    intro s t stream hn hst
    obtain ⟨s', t', o, o', hf, hg, hor, hlen⟩ := h.cases hn hst
    rw [callbackLoop, callbackLoop, hf, hg]
    rcases hor with ⟨hst', rfl⟩ | ⟨rfl, hst'⟩
    · rcases o with _ | _ | ⟨byte, rest⟩
      · exact ⟨.inl ⟨hst', rfl⟩, fun rest hrest => by cases hrest⟩
      · exact ⟨.inl ⟨hst', rfl⟩, hlen⟩
      · -- the callback has read a byte
        have hle := hlen _ rfl
        have hpos : 0 < (byte :: rest).length := Nat.succ_pos _
        obtain ⟨hR, hlen'⟩ := ih (h.mono (Nat.sub_le n 1)) (by omega)
          (show n - 1 < l by omega) s' t' (byte :: rest) (hle.trans (Nat.sub_le_sub_right hn 1)) hst'
        exact ⟨hR, fun bs hbs => ((hlen' bs hbs).trans (Nat.sub_le _ _)).trans hle⟩
    · refine ⟨.inr ⟨rfl, ?_⟩, fun rest hrest => by cases hrest⟩
      rcases o' with _ | _ | ⟨byte, rest⟩
      · exact hst'
      · exact hst'
      · exact callbackLoop_keeps (hbad s') l t' _ hst'

lemma Callback.SimUnless.substream (h : f.SimUnless R bad n g) {s : σ} {t : τ} {part rest stream : Bytes}
    (hst : R s t) (hpart : part.length ≤ n) (hrest : rest.length < stream.length) :
    let p : σ × Option Bytes := match f s part with
      | (s, none) => (s, none)
      | (s, some _) => (s, some rest)
    let q : τ × Option Bytes := match g t part with
      | (t, none) => (t, none)
      | (t, some _) => (t, some rest)
    (R p.1 q.1 ∧ p.2 = q.2 ∨ p.2 = none ∧ bad p.1 q.1) ∧
      ∀ bs, p.2 = some bs → bs.length ≤ stream.length - 1 := by
  obtain ⟨s', t', o, o', hf, hg, hor, -⟩ := h.cases hpart hst
  dsimp only
  rw [hf, hg]
  rcases hor with ⟨hst', rfl⟩ | ⟨rfl, hst'⟩
  · cases o with
    | none => exact ⟨.inl ⟨hst', rfl⟩, fun bs hbs => by cases hbs⟩
    | some left =>
      refine ⟨.inl ⟨hst', rfl⟩, fun bs hbs => ?_⟩
      obtain rfl := Option.some.inj hbs
      exact Nat.le_sub_one_of_lt hrest
  · refine ⟨.inr ⟨rfl, ?_⟩, fun bs hbs => by cases hbs⟩
    cases o' <;> exact hst'

lemma decodeCallbackField_simUnless (h : f.SimUnless R bad n g) (hbad : g.Stays bad) (wireType : ℕ) :
    Callback.SimUnless R bad n (decodeCallbackField f wireType) (decodeCallbackField g wireType) := by
  intro s t stream hn hst
  unfold decodeCallbackField
  split
  · cases hsub : pbMakeStringSubstream stream with
    | none => exact ⟨.inl ⟨hst, rfl⟩, fun bs hbs => by cases hbs⟩
    | some p =>
      obtain ⟨part, rest⟩ := p
      have hlen := pbMakeStringSubstream_length hsub
      have hloop := callbackLoop_simUnless (h.mono (show part.length ≤ n by omega)) hbad
        part.length.lt_succ_self part.length.lt_succ_self
      exact hloop.substream hst le_rfl ((Nat.le_add_left _ _).trans_lt hlen)
  · cases hraw : readRawValue wireType stream with
    | none => exact ⟨.inl ⟨hst, rfl⟩, fun bs hbs => by cases hbs⟩
    | some p =>
      obtain ⟨part, rest⟩ := p
      obtain ⟨hlen, hrest⟩ := readRawValue_length hraw
      exact h.substream hst (show part.length ≤ n by omega) hrest

lemma pbDecSubmessage_simUnless (h : f.SimUnless R bad n g) :
    Callback.SimUnless R bad n (pbDecSubmessage f) (pbDecSubmessage g) := by
  intro s t stream hn hst
  unfold pbDecSubmessage
  cases hsub : pbMakeStringSubstream stream with
  | none => exact ⟨.inl ⟨hst, rfl⟩, fun bs hbs => by cases hbs⟩
  | some p =>
    obtain ⟨part, rest⟩ := p
    have hlen := pbMakeStringSubstream_length hsub
    exact h.substream hst (show part.length ≤ n by omega) ((Nat.le_add_left _ _).trans_lt hlen)

lemma skip_simUnless (wireType : ℕ) : Callback.SimUnless R bad n
    (fun s stream => (s, pbSkipField wireType stream)) (fun t stream => (t, pbSkipField wireType stream)) :=
  fun _ _ _ _ hst => ⟨.inl ⟨hst, rfl⟩, fun _ hrest => Nat.le_sub_one_of_lt (pbSkipField_length hrest)⟩

lemma decodeNumber_simUnless {store : ℤ → σ → σ} {store' : ℤ → τ → τ}
    (h : ∀ v s t, R s t → R (store v s) (store' v t)) (type : FieldType) :
    Callback.SimUnless R bad n (decodeNumber store type) (decodeNumber store' type) := by
  intro s t stream _ hst
  unfold decodeNumber
  cases hread : readNumber type stream with
  | none => exact ⟨.inl ⟨hst, rfl⟩, fun rest hrest => by cases hrest⟩
  | some p =>
    obtain ⟨value, o⟩ := p
    refine ⟨.inl ⟨h value s t hst, rfl⟩, fun rest hrest => ?_⟩
    obtain rfl : o = some rest := hrest
    exact Nat.le_sub_one_of_lt (readNumber_length hread)

lemma decodeField_simUnless {sub : Fields → Callback σ} {sub' : Fields → Callback τ}
    (hsub : ∀ fields, (sub fields).SimUnless R bad n (sub' fields)) (hcd : DestSim R bad n c d)
    (hbad : ∀ s, d.Keeps (bad s)) (tag wireType : ℕ) (type : FieldType) :
    Callback.SimUnless R bad n
      (decodeField sub (c.callback [tag]) (c.store [tag]) wireType type)
      (decodeField sub' (d.callback [tag]) (d.store [tag]) wireType type) := by
  cases type with
  | message fields => exact pbDecSubmessage_simUnless (hsub fields)
  | callback =>
    rcases hcd.callback [tag] with ⟨hc, hd⟩ | ⟨f, g, hc, hd, hfg⟩
    · rw [hc, hd]
      exact skip_simUnless wireType
    · rw [hc, hd]
      exact decodeCallbackField_simUnless hfg (fun s => (hbad s).callback [tag] g hd) wireType
  | bool => exact decodeNumber_simUnless (hcd.store [tag]) .bool
  | uint32 => exact decodeNumber_simUnless (hcd.store [tag]) .uint32
  | uint64 => exact decodeNumber_simUnless (hcd.store [tag]) .uint64
  | int32 => exact decodeNumber_simUnless (hcd.store [tag]) .int32
  | int64 => exact decodeNumber_simUnless (hcd.store [tag]) .int64

/-- The fuel does not matter, where it is the length of the stream at least. -/
lemma pbDecodeLoop_simUnless (hcd : DestSim R bad n c d) (hbad : ∀ s, d.Keeps (bad s)) (fields : Fields)
    {k l : ℕ} (hk : n ≤ k) (hl : n ≤ l) :
    Callback.SimUnless R bad n (pbDecodeLoop k fields c) (pbDecodeLoop l fields d) := by
  induction n generalizing k l fields c d with
  | zero =>
    intro s t stream hn hst
    obtain rfl := List.length_eq_zero_iff.mp (Nat.le_zero.mp hn)
    unfold pbDecodeLoop
    exact ⟨.inl ⟨hst, rfl⟩, fun rest hrest => (congrArg List.length (Option.some.inj hrest)).ge⟩
  | succ n ih =>
    obtain ⟨k, rfl⟩ := Nat.exists_eq_succ_of_ne_zero (Nat.zero_lt_of_lt hk).ne'
    obtain ⟨l, rfl⟩ := Nat.exists_eq_succ_of_ne_zero (Nat.zero_lt_of_lt hl).ne'
    have hk := Nat.le_of_succ_le_succ hk
    have hl := Nat.le_of_succ_le_succ hl
    have hcd' := hcd.mono n.le_succ
    intro s t stream hn hst
    cases stream with
    | nil => exact ⟨.inl ⟨hst, rfl⟩, fun rest hrest => (congrArg List.length (Option.some.inj hrest)).ge⟩
    | cons byte stream =>
      have hn := Nat.le_of_succ_le_succ hn
      rw [pbDecodeLoop, pbDecodeLoop]
      cases hkey : pbDecodeVarint32 (byte :: stream) with
      | none => exact ⟨.inl ⟨hst, rfl⟩, fun rest hrest => by cases hrest⟩
      | some p =>
        obtain ⟨key, rest⟩ := p
        have hrest : rest.length ≤ stream.length := Nat.le_of_lt_succ (pbDecodeVarint32_length hkey)
        -- the fields after the first
        have hnext : ∀ s' t' behind, R s' t' → behind.length ≤ rest.length →
            (R (pbDecodeLoop k fields c s' behind).1 (pbDecodeLoop l fields d t' behind).1 ∧
                (pbDecodeLoop k fields c s' behind).2 = (pbDecodeLoop l fields d t' behind).2 ∨
              (pbDecodeLoop k fields c s' behind).2 = none ∧
                bad (pbDecodeLoop k fields c s' behind).1 (pbDecodeLoop l fields d t' behind).1) ∧
              ∀ bs, (pbDecodeLoop k fields c s' behind).2 = some bs → bs.length ≤ stream.length := by
          intro s' t' behind hst' hbehind
          have hle := hbehind.trans hrest
          obtain ⟨hR, hlen⟩ := ih hcd' hbad fields hk hl s' t' behind (hle.trans hn) hst'
          exact ⟨hR, fun bs hbs => ((hlen bs hbs).trans (Nat.sub_le _ _)).trans hle⟩
        dsimp only
        by_cases hzero : key = 0
        · rw [if_pos hzero, if_pos hzero]
          exact ⟨.inl ⟨hst, rfl⟩, fun bs hbs => (congrArg List.length (Option.some.inj hbs)).ge.trans hrest⟩
        · rw [if_neg hzero, if_neg hzero]
          cases fields.find (key / 8) with
          | none =>
            dsimp only
            cases hskip : pbSkipField (key % 8) rest with
            | none => exact ⟨.inl ⟨hst, rfl⟩, fun bs hbs => by cases hbs⟩
            | some behind => exact hnext s t behind hst (pbSkipField_length hskip).le
          | some type =>
            dsimp only
            have hsub : ∀ fields : Fields, Callback.SimUnless R bad n
                (pbDecodeLoop k fields (c.sub (key / 8))) (pbDecodeLoop l fields (d.sub (key / 8))) :=
              fun fields => ih (hcd'.sub (key / 8)) (fun s => (hbad s).sub (key / 8)) fields hk hl
            have hfield := decodeField_simUnless hsub hcd' hbad (key / 8) (key % 8) type
            obtain ⟨s', t', o, o', hf, hg, hor, hlen⟩ := hfield.cases (hrest.trans hn) hst
            rw [hf, hg]
            rcases hor with ⟨hst', rfl⟩ | ⟨rfl, hst'⟩
            · cases o with
              | none => exact ⟨.inl ⟨hst', rfl⟩, fun bs hbs => by cases hbs⟩
              | some behind => exact hnext s' t' behind hst' ((hlen behind rfl).trans (Nat.sub_le _ _))
            · refine ⟨.inr ⟨rfl, ?_⟩, fun bs hbs => by cases hbs⟩
              cases o' with
              | none => exact hst'
              | some behind => exact pbDecodeLoop_keeps (hbad s') l fields t' behind hst'

/-- **Decoders whose callbacks go along with each other, unless the first fails, do so themselves.** -/
theorem pbDecode_simUnless (hcd : DestSim R bad n c d) (hbad : ∀ s, d.Keeps (bad s)) (fields : Fields) :
    Callback.SimUnless R bad n (pbDecode fields c) (pbDecode fields d) :=
  fun s t stream hn => pbDecodeLoop_simUnless (hcd.mono hn) hbad fields le_rfl le_rfl s t stream le_rfl

lemma keeps_false (d : Dest τ) : d.Keeps fun _ => False := ⟨fun _ _ _ _ _ h => h, fun _ _ _ h => h⟩

/-- Without an exception they do so always. -/
theorem pbDecode_sim (hcd : DestSim R (fun _ _ => False) n c d) (fields : Fields) :
    Callback.Sim R n (pbDecode fields c) (pbDecode fields d) :=
  simUnless_iff.mp (pbDecode_simUnless hcd (fun _ => keeps_false d) fields)

end Sim

/-- **The length of the stream is fuel enough**: more of it changes nothing, with callbacks that read. -/
theorem pbDecodeLoop_eq {c : Dest σ} {stream : Bytes} {k : ℕ}
    (hc : DestSim Eq (fun _ _ => False) stream.length c c) (fields : Fields) (hk : stream.length ≤ k)
    (state : σ) : pbDecodeLoop k fields c state stream = pbDecode fields c state stream := by
  have hsim := pbDecodeLoop_simUnless hc (fun _ => keeps_false c) fields hk le_rfl
  obtain ⟨hstate, hrest, -⟩ := simUnless_iff.mp hsim state state stream le_rfl rfl
  exact Prod.ext hstate hrest

end Libaergo.Nanopb
