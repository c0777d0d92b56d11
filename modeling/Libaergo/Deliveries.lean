import Libaergo.Accounts
import Libaergo.Base58
import Libaergo.Lib.Runs

/-!
# Receipts and events (`aergo.c`)

`handle_receipt_response` and `handle_event_response` decode a message into a structure of the caller: two
texts that stand next to each other, two hashes, and numbers that follow when the message has been read.
The contract address is read into an array on the stack, and its text is made of 33 bytes of it.
`read_string` writes its null byte behind a text that fills its member, which is the first byte of the next
one.

The structures are memories with members at their offsets, filled with zeros at first; the numbers are kept
beside them.  What is delivered there is what the request of an instance is answered with
(`handleReceiptResponse_of_fits`, `handleEventResponse_of_fits`).
-/

namespace Libaergo.Delivery

open Lib Nanopb State

/-! ### The structures -/

/-- A member that a callback writes: the tag of its field, where it is, and whether it is a text. -/
structure Member where
  tag : ℕ
  offset : ℕ
  size : ℕ
  string : Bool
  deriving DecidableEq

/-- A structure: the fields of the message, the size, that of the text of the address, which comes first,
the two texts, the hashes, the tag of the fee if there is one, and those of the numbers. -/
structure Layout where
  fields : Fields
  size : ℕ
  addressSize : ℕ
  first : Member
  second : Member
  blobs : List Member
  fee : Option ℕ
  numbers : List ℕ

def Layout.members (l : Layout) : List Member := l.first :: l.second :: l.blobs

def receiptFields : Fields :=
  [(1, .callback), (2, .callback), (3, .callback), (4, .callback), (5, .callback), (6, .callback), (7, .callback),
    (8, .callback), (9, .uint64), (10, .callback), (11, .int32), (12, .callback), (13, .callback), (14, .bool),
    (15, .uint64)]

def eventFields : Fields :=
  [(1, .callback), (2, .callback), (3, .callback), (4, .int32), (5, .callback), (6, .callback), (7, .uint64),
    (8, .int32)]

/-- `struct transaction_receipt`: `status` and `ret`, `txHash` and `blockHash`, `feeUsed`, and `gasUsed`,
`blockNo`, `txIndex` and `feeDelegation`. -/
def receipt : Layout where
  fields := receiptFields
  size := 2224
  addressSize := 56
  first := ⟨2, 56, 16, true⟩
  second := ⟨3, 72, 2048, true⟩
  blobs := [⟨4, 2164, 32, false⟩, ⟨10, 2128, 32, false⟩]
  fee := some 5
  numbers := [15, 9, 11, 14]

/-- `struct contract_event`: `eventName` and `jsonArgs`, `txHash` and `blockHash`, and `eventIdx`, `blockNo`
and `txIndex`. -/
def event : Layout where
  fields := eventFields
  size := 2264
  addressSize := 64
  first := ⟨2, 64, 64, true⟩
  second := ⟨3, 128, 2048, true⟩
  blobs := [⟨5, 2180, 32, false⟩, ⟨6, 2212, 32, false⟩]
  fee := none
  numbers := [4, 7, 8]

/-- What both have in common. -/
structure Layout.Ok (l : Layout) : Prop where
  strings : l.first.string ∧ l.second.string ∧ ∀ mb ∈ l.blobs, mb.string = false
  next : l.second.offset = l.first.offset + l.first.size
  behind : ∀ mb ∈ l.members, ¬ (mb.offset ≤ l.second.offset + l.second.size ∧
    l.second.offset + l.second.size < mb.offset + mb.size)
  apart : ∀ mb ∈ l.members, ∀ mb' ∈ l.members, mb = mb' ∨
    mb.tag ≠ mb'.tag ∧ (mb.offset + mb.size ≤ mb'.offset ∨ mb'.offset + mb'.size ≤ mb.offset)
  bound : ∀ mb ∈ l.members, 0 < mb.size ∧ l.addressSize ≤ mb.offset ∧ mb.offset + mb.size < l.size
  address : 53 ≤ l.addressSize
  tags : ∀ mb ∈ l.members, mb.tag ≠ 1 ∧ l.fee ≠ some mb.tag
  fee : l.fee ≠ some 1

lemma receipt_ok : receipt.Ok := by
  constructor <;> decide

lemma event_ok : event.Ok := by
  constructor <;> decide

/-! ### The handlers -/

/-- What a callback writes to its member: `read_string` adds a null byte, `read_blob` does not. -/
def Member.written (mb : Member) (value : Bytes) : Bytes := if mb.string then value ++ [0] else value

/-- `read_string` and `read_blob` -/
def Member.read (mb : Member) (memory value : Bytes) : Option Bytes :=
  if mb.size < value.length then none else some (writeAt memory mb.offset (mb.written value))

/-- The structure while the message is read, `raw_address`, and the numbers of the message by their tags. -/
structure Decoding where
  memory : Bytes
  rawAddress : Bytes
  fee : ℚ
  numbers : ℕ → ℤ

def readAddress (d : Decoding) (value : Bytes) : Option Decoding :=
  if 64 < value.length then none else some { d with rawAddress := overlay d.rawAddress value }

def readFee (d : Decoding) (value : Bytes) : Option Decoding :=
  (readBignumToDouble value).map fun q => { d with fee := q }

def readMember (mb : Member) (d : Decoding) (value : Bytes) : Option Decoding :=
  (mb.read d.memory value).map fun memory => { d with memory := memory }

section Handlers

variable (l : Layout) (sha256 : Bytes → Hash) (raw : Vector UInt8 64)

/-- The callbacks that the handler sets, and the numbers that it reads. -/
def effects : Effects Decoding where
  read path :=
    match path with
    | [tag] =>
      if tag = 1 then some readAddress
      else if l.fee = some tag then some readFee
      else (l.members.find? (·.tag = tag)).map readMember
    | _ => none
  store path value d :=
    match path with
    | [tag] => { d with numbers := Function.update d.numbers tag value }
    | _ => d

/-- The structure filled with zeros, with an array on the stack that is not. -/
def start : Decoding := ⟨List.replicate l.size 0, raw.toList, 0, fun _ => 0⟩

/-- `encode_address(raw_address, AddressLength, …)` into the structure. -/
def putAddress (d : Decoding) : Decoding :=
  match encodeAddress sha256 (d.rawAddress.take 33) l.addressSize with
  | some (some text) => { d with memory := writeAt d.memory 0 text }
  | _ => d

/-- The decoding, and the copies that follow. -/
def handle (m : Bytes) : Bool × Decoding :=
  match pbDecode l.fields (effects l).dest (start l raw) m with
  | (d, none) => (false, d)
  | (d, some _) => (true, putAddress l sha256 d)

end Handlers

/-- **`handle_receipt_response`**: its result, and the receipt. -/
def handleReceiptResponse : (Bytes → Hash) → Vector UInt8 64 → Bytes → Bool × Decoding := handle receipt

/-- **`handle_event_response`**: its result, and the event. -/
def handleEventResponse : (Bytes → Hash) → Vector UInt8 64 → Bytes → Bool × Decoding := handle event

/-! ### What is in the message, and what is delivered -/

section Faithful

variable (l : Layout)

/-- What the decoder finds in a message. -/
def entries (m : Bytes) : List Entry := (record (effects l).callbacks l.fields m).1

/-- A value that its callback accepts. -/
def accepts : Entry → Bool
  | .bytes [tag] b =>
    if tag = 1 then b.length ≤ 64
    else if l.fee = some tag then b.length ≤ 64 ∧ beNat b < 2 ^ 123
    else (l.members.find? (·.tag = tag)).all fun mb => b.length ≤ mb.size
  | _ => true

/-- The message decodes, and all its values are accepted. -/
def Readable (m : Bytes) : Prop := (record (effects l).callbacks l.fields m).2.isSome ∧ (entries l m).all (accepts l)

instance (m : Bytes) : Decidable (Readable l m) := inferInstanceAs (Decidable (_ ∧ _))

/-- A text stands in its member with a null byte behind it, and bytes with zeros. -/
def Member.Holds (mb : Member) (memory value : Bytes) : Prop :=
  if mb.string then value ++ [0] <+: slice memory mb.offset mb.size
  else slice memory mb.offset mb.size = padded mb.size value

/-- The text of the address stands in its member, or the empty text if there is none. -/
def HoldsAddress (sha256 : Bytes → Hash) (memory value : Bytes) : Prop :=
  if value = [] then [0] <+: slice memory 0 l.addressSize
  else ∃ (a : Address) (text : Bytes), a.toList = value ∧
    encodeAddress sha256 a.toList l.addressSize = some (some (text ++ [0])) ∧
    text ++ [0] <+: slice memory 0 l.addressSize

/-- Every field of the structure is that of the message. -/
structure Delivered (sha256 : Bytes → Hash) (es : List Entry) (d : Decoding) : Prop where
  address : HoldsAddress l sha256 d.memory (lastBytes [1] es)
  members : ∀ mb ∈ l.members, mb.Holds d.memory (lastBytes [mb.tag] es)
  fee : ∀ tag ∈ l.fee, d.fee = (beNat (lastBytes [tag] es) : ℚ) / 10 ^ 18
  numbers : ∀ tag ∈ l.numbers, d.numbers tag = lastNumber [tag] es

/-- The structure after these fields. -/
def after (raw : Vector UInt8 64) (es : List Entry) : Decoding := ((effects l).run (start l raw) es).1

/-- The byte is in the member of the field. -/
def Owns (entry : Entry) (i : ℕ) : Prop :=
  ∃ mb ∈ l.members, (∃ value, entry = .bytes [mb.tag] value) ∧ mb.offset ≤ i ∧ i < mb.offset + mb.size

/-- A field, decoded behind these, changes nothing else: no byte outside its member, in the structure or
behind it, and none of what is kept beside it. -/
structure Separate (raw : Vector UInt8 64) (before : List Entry) (entry : Entry) : Prop where
  memory : ∀ i, ¬ Owns l entry i →
    (after l raw (before ++ [entry])).memory.getD i 0 = (after l raw before).memory.getD i 0
  length : (after l raw (before ++ [entry])).memory.length = (after l raw before).memory.length
  address : (∀ value, entry ≠ .bytes [1] value) →
    (after l raw (before ++ [entry])).rawAddress = (after l raw before).rawAddress
  fee : (∀ tag ∈ l.fee, ∀ value, entry ≠ .bytes [tag] value) →
    (after l raw (before ++ [entry])).fee = (after l raw before).fee
  numbers : ∀ tag, (∀ value, entry ≠ .number [tag] value) →
    (after l raw (before ++ [entry])).numbers tag = (after l raw before).numbers tag

/-- **Faithful and separate**: if the handler returns true, what is delivered are the fields of the message,
and no field that was decoded changed another. -/
def Faithful (sha256 : Bytes → Hash) (raw : Vector UInt8 64) (m : Bytes) (out : Bool × Decoding) : Prop :=
  out.1 = true → Delivered l sha256 (entries l m) out.2 ∧ Throughout (Separate l raw) (entries l m)

/-- The values fit: the address has 33 bytes, the texts leave room for a null byte, the hashes have zeros
where they end, and the fee is below 10^32. -/
structure Fits (es : List Entry) : Prop where
  address : (lastBytes [1] es).length = 33
  first : (lastBytes [l.first.tag] es).length < l.first.size
  second : (lastBytes [l.second.tag] es).length < l.second.size
  blobs : ∀ mb ∈ l.blobs, ∀ i, (lastBytes [mb.tag] es).length ≤ i → i < mb.size →
    Latest (List.replicate mb.size 0 :: values [mb.tag] es) i 0
  fee : ∀ tag ∈ l.fee, beNat (lastBytes [tag] es) < 10 ^ 32

/-- A first text that fills its member finds the second empty. -/
def Spared (before : List Entry) (entry : Entry) : Prop :=
  ∀ b, entry = .bytes [l.first.tag] b → b.length = l.first.size → (lastBytes [l.second.tag] before).headD 0 = 0

end Faithful

/-! ### One field -/

section Step

variable {l : Layout} {raw : Vector UInt8 64} {d d' : Decoding} {entry : Entry} {es : List Entry} {mb mb' : Member}

lemma find?_member (hl : l.Ok) (hmb : mb ∈ l.members) : l.members.find? (·.tag = mb.tag) = some mb := by
  cases hfind : l.members.find? (·.tag = mb.tag) with
  | none =>
    have hnone := List.find?_eq_none.mp hfind mb hmb
    exact absurd (decide_eq_true rfl) hnone
  | some mb' =>
    have hmem := List.mem_of_find?_eq_some hfind
    have htag : mb'.tag = mb.tag := by simpa using List.find?_some hfind
    rcases hl.apart mb' hmem mb hmb with heq | ⟨hne, -⟩
    · rw [heq]
    · exact absurd htag hne

lemma effects_read_member (hl : l.Ok) (hmb : mb ∈ l.members) :
    (effects l).read [mb.tag] = some (readMember mb) := by
  obtain ⟨hone, hfee⟩ := hl.tags mb hmb
  have hread : (effects l).read [mb.tag] = if mb.tag = 1 then some readAddress
    else if l.fee = some mb.tag then some readFee
    else (l.members.find? (·.tag = mb.tag)).map readMember := rfl
  rw [hread, if_neg hone, if_neg hfee, find?_member hl hmb, Option.map_some]

lemma effects_read_fee (hl : l.Ok) {tag : ℕ} (h : l.fee = some tag) : (effects l).read [tag] = some readFee := by
  have hone : tag ≠ 1 := fun hone => hl.fee (hone ▸ h)
  have hread : (effects l).read [tag] = if tag = 1 then some readAddress
    else if l.fee = some tag then some readFee
    else (l.members.find? (·.tag = tag)).map readMember := rfl
  rw [hread, if_neg hone, if_pos h]

lemma apply_cases (h : (effects l).apply d entry = some d') :
    (∃ path v, entry = .number path v ∧ d' = (effects l).store path v d) ∨
    (∃ b, entry = .bytes [1] b ∧ d' = { d with rawAddress := overlay d.rawAddress b }) ∨
    (∃ tag b q, l.fee = some tag ∧ entry = .bytes [tag] b ∧ readBignumToDouble b = some q ∧
      d' = { d with fee := q }) ∨
    (∃ mb ∈ l.members, ∃ b, entry = .bytes [mb.tag] b ∧ b.length ≤ mb.size ∧
      d' = { d with memory := writeAt d.memory mb.offset (mb.written b) }) ∨
    (∃ path b, entry = .bytes path b ∧ (effects l).read path = none ∧ d' = d) := by
  cases entry with
  | number path v => exact .inl ⟨path, v, rfl, (Option.some.inj h).symm⟩
  | bytes path b =>
    cases hread : (effects l).read path with
    | none =>
      rw [Effects.apply, hread] at h
      exact .inr (.inr (.inr (.inr ⟨path, b, rfl, hread, (Option.some.inj h).symm⟩)))
    | some read =>
      rw [Effects.apply_bytes hread] at h
      obtain ⟨tag, rfl⟩ : ∃ tag, path = [tag] := by
        unfold effects at hread
        dsimp only at hread
        split at hread
        · exact ⟨_, rfl⟩
        · cases hread
      unfold effects at hread
      dsimp only at hread
      split_ifs at hread with hone hfee
      · subst hone
        obtain rfl := Option.some.inj hread
        obtain ⟨-, hd⟩ := Option.ite_none_left_eq_some.mp h
        exact .inr (.inl ⟨b, rfl, (Option.some.inj hd).symm⟩)
      · obtain rfl := Option.some.inj hread
        obtain ⟨q, hq, hd⟩ := Option.map_eq_some_iff.mp h
        exact .inr (.inr (.inl ⟨tag, b, q, hfee, rfl, hq, hd.symm⟩))
      · obtain ⟨mb, hfind, rfl⟩ := Option.map_eq_some_iff.mp hread
        have htag : mb.tag = tag := by simpa using List.find?_some hfind
        obtain ⟨memory, hmemory, hd⟩ := Option.map_eq_some_iff.mp h
        obtain ⟨hlen, hmemory⟩ := Option.ite_none_left_eq_some.mp hmemory
        refine .inr (.inr (.inr (.inl ⟨mb, List.mem_of_find?_eq_some hfind, b, by rw [htag], not_lt.mp hlen, ?_⟩)))
        rw [← hd, ← Option.some.inj hmemory]

lemma apply_isSome (d : Decoding) (entry : Entry) : ((effects l).apply d entry).isSome = accepts l entry := by
  cases entry with
  | number path v => rfl
  | bytes path b =>
    match path with
    | [] => rfl
    | _ :: _ :: _ => rfl
    | [tag] =>
      have hread : (effects l).read [tag] = if tag = 1 then some readAddress
        else if l.fee = some tag then some readFee
        else (l.members.find? (·.tag = tag)).map readMember := rfl
      rw [Bool.eq_iff_iff, accepts]
      split_ifs with hone hfee
      · rw [if_pos hone] at hread
        rw [Effects.apply_bytes hread, readAddress, decide_eq_true_iff]
        split
        · next h => exact iff_of_false Bool.false_ne_true (not_le.mpr h)
        · next h => exact iff_of_true rfl (not_lt.mp h)
      · rw [if_neg hone, if_pos hfee] at hread
        rw [Effects.apply_bytes hread, readFee, Option.isSome_map, readBignumToDouble_isSome, decide_eq_true_iff]
      · rw [if_neg hone, if_neg hfee] at hread
        cases hfind : l.members.find? (·.tag = tag) with
        | none =>
          rw [hfind, Option.map_none] at hread
          rw [Effects.apply, hread]
          exact iff_of_true rfl rfl
        | some mb =>
          rw [hfind, Option.map_some] at hread
          rw [Effects.apply_bytes hread, readMember, Option.isSome_map, Member.read, Option.all_some,
            decide_eq_true_iff]
          split
          · next h => exact iff_of_false Bool.false_ne_true (not_le.mpr h)
          · next h => exact iff_of_true rfl (not_lt.mp h)

lemma store_eq (path : List ℕ) (v : ℤ) (d : Decoding) :
    (effects l).store path v d = { d with numbers := ((effects l).store path v d).numbers } := by
  unfold effects
  dsimp only
  split <;> rfl

lemma store_numbers (path : List ℕ) (v : ℤ) (d : Decoding) (tag : ℕ) :
    ((effects l).store path v d).numbers tag = if path = [tag] then v else d.numbers tag := by
  unfold effects
  dsimp only
  split
  · next tag' =>
    by_cases heq : tag' = tag
    · subst heq
      rw [if_pos rfl]
      exact Function.update_self _ _ _
    · rw [if_neg fun h => heq (List.cons.inj h).1]
      exact Function.update_of_ne (Ne.symm heq) _ _
  · next hpath =>
    rw [if_neg]
    rintro rfl
    exact hpath tag rfl

variable (raw) in
lemma after_append (h : (es ++ [entry]).all (accepts l)) :
    (effects l).apply (after l raw es) entry = some (after l raw (es ++ [entry])) := by
  rw [List.all_append, Bool.and_eq_true] at h
  have hrun : ((effects l).run (start l raw) es).2 = true := (Effects.run_all _ apply_isSome).trans h.1
  have hentry : ((effects l).apply (after l raw es) entry).isSome := by
    rw [apply_isSome]
    simpa using h.2
  obtain ⟨d, hd⟩ := Option.isSome_iff_exists.mp hentry
  have happend := (effects l).run_append (start l raw) es [entry]
  rw [hrun, if_pos rfl] at happend
  have hone : ((effects l).run (after l raw es) [entry]).1 = d := by
    rw [Effects.run_cons_of_some hd, Effects.run_nil]
  rw [hd, after, happend]
  exact congrArg some hone.symm

end Step

/-! ### Fields that are separate -/

/-- What stands in the memory when no field has changed another: in every member what its own field has
left, and zeros elsewhere. -/
structure Content (l : Layout) (raw : Vector UInt8 64) (es : List Entry) : Prop where
  length : (after l raw es).memory.length = l.size
  members : ∀ mb ∈ l.members, ∀ i < mb.size, (after l raw es).memory.getD (mb.offset + i) 0 =
    (((values [mb.tag] es).map mb.written).foldl overlay (List.replicate mb.size 0)).getD i 0
  rest : ∀ i, (∀ mb ∈ l.members, ¬ (mb.offset ≤ i ∧ i < mb.offset + mb.size)) →
    (after l raw es).memory.getD i 0 = 0

section Content

variable {l : Layout} {raw : Vector UInt8 64} {entry : Entry} {es : List Entry} {mb mb' : Member} {i : ℕ}

lemma written_of_string (h : mb.string) (b : Bytes) : mb.written b = b ++ [0] := if_pos h

lemma written_of_blob (h : mb.string = false) (b : Bytes) : mb.written b = b :=
  if_neg (by rw [h]; exact Bool.false_ne_true)

lemma written_length (mb : Member) (b : Bytes) :
    b.length ≤ (mb.written b).length ∧ (mb.written b).length ≤ b.length + 1 := by
  cases h : mb.string with
  | false =>
    rw [written_of_blob h]
    omega
  | true =>
    rw [written_of_string h, List.length_append, List.length_singleton]
    omega

lemma zeros_getD (n i : ℕ) : (List.replicate n (0 : UInt8)).getD i 0 = 0 := by
  rw [List.getD_eq_getElem?_getD, List.getElem?_getD_replicate_default_eq]

lemma written_outside {memory b : Bytes} (hmemory : mb.offset ≤ memory.length) (hlen : b.length ≤ mb.size)
    (hi : ¬ (mb.offset ≤ i ∧ i < mb.offset + mb.size)) :
    (writeAt memory mb.offset (mb.written b)).getD i 0 =
      if mb.string ∧ b.length = mb.size ∧ i = mb.offset + mb.size then 0 else memory.getD i 0 := by
  rw [writeAt_getD hmemory]
  cases hstring : mb.string with
  | false =>
    rw [written_of_blob hstring, if_neg (by omega), if_neg fun h => Bool.false_ne_true h.1]
  | true =>
    rw [written_of_string hstring, List.length_append, List.length_singleton]
    by_cases hend : b.length = mb.size ∧ i = mb.offset + mb.size
    · obtain ⟨hfull, rfl⟩ := hend
      rw [if_pos (by omega), if_pos ⟨rfl, hfull, rfl⟩, Nat.add_sub_cancel_left, ← hfull,
        List.getD_append_right _ _ _ _ le_rfl, Nat.sub_self]
      rfl
    · rw [if_neg (by omega), if_neg fun h => hend h.2]

variable (raw) in
lemma after_member (hl : l.Ok) (hmb : mb ∈ l.members) {b : Bytes}
    (h : (es ++ [Entry.bytes [mb.tag] b]).all (accepts l)) :
    b.length ≤ mb.size ∧ (after l raw (es ++ [Entry.bytes [mb.tag] b])).memory =
      writeAt (after l raw es).memory mb.offset (mb.written b) := by
  have happ := after_append raw h
  rw [Effects.apply_bytes (effects_read_member hl hmb)] at happ
  obtain ⟨memory, hmemory, hd⟩ := Option.map_eq_some_iff.mp happ
  obtain ⟨hlen, hmemory⟩ := Option.ite_none_left_eq_some.mp hmemory
  refine ⟨not_lt.mp hlen, ?_⟩
  rw [← hd, ← Option.some.inj hmemory]

lemma eq_of_tag (hl : l.Ok) (hmb : mb ∈ l.members) (hmb' : mb' ∈ l.members) (h : mb.tag = mb'.tag) : mb = mb' :=
  (hl.apart mb hmb mb' hmb').resolve_right fun hapart => hapart.1 h

lemma not_owns_member (hl : l.Ok) (hmb : mb ∈ l.members) (hi : i < mb.size)
    (h : ∀ value, entry ≠ .bytes [mb.tag] value) : ¬ Owns l entry (mb.offset + i) := by
  rintro ⟨mb', hmb', ⟨value, rfl⟩, hlo, hhi⟩
  rcases hl.apart mb hmb mb' hmb' with rfl | ⟨-, hapart⟩
  · exact h value rfl
  · omega

lemma content_nil : Content l raw [] where
  length := List.length_replicate
  members _ _ _ _ := (zeros_getD _ _).trans (zeros_getD _ _).symm
  rest _ _ := zeros_getD _ _

variable (raw) in
/-- **Separate fields leave in every member what its own field has.** -/
theorem content (hl : l.Ok) (hall : es.all (accepts l)) (hsep : Throughout (Separate l raw) es) :
    Content l raw es := by
  induction es using List.reverseRecOn with
  | nil => exact content_nil
  | append_singleton es entry ih =>
    obtain ⟨hbefore, hentry⟩ := throughout_append_singleton.mp hsep
    have hes : es.all (accepts l) := by
      rw [List.all_append, Bool.and_eq_true] at hall
      exact hall.1
    have ih := ih hes hbefore
    refine ⟨hentry.length.trans ih.length, fun mb hmb i hi => ?_, fun i hi => ?_⟩
    · have hbound := hl.bound mb hmb
      have hlen := ih.length
      by_cases hown : ∃ b, entry = .bytes [mb.tag] b
      · obtain ⟨b, rfl⟩ := hown
        obtain ⟨-, hmemory⟩ := after_member raw hl hmb hall
        have hvalue : Entry.value? [mb.tag] (.bytes [mb.tag] b) = some b := if_pos rfl
        rw [hmemory, writeAt_getD (by omega), values_append_singleton, hvalue, Option.toList_some, List.map_append,
          List.map_singleton, List.foldl_append, List.foldl_cons, List.foldl_nil, overlay_getD,
          Nat.add_sub_cancel_left, ih.members mb hmb i hi]
        refine if_congr ?_ rfl rfl
        omega
      · have hother : ∀ b, entry ≠ .bytes [mb.tag] b := fun b hb => hown ⟨b, hb⟩
        have hvalue : entry.value? [mb.tag] = none := by
          cases entry with
          | number path v => rfl
          | bytes path b => exact if_neg fun hpath => hother b (by rw [hpath])
        rw [hentry.memory _ (not_owns_member hl hmb hi hother), values_append_singleton, hvalue, Option.toList_none,
          List.append_nil]
        exact ih.members mb hmb i hi
    · rw [hentry.memory i]
      · exact ih.rest i hi
      · rintro ⟨mb, hmb, -, hown⟩
        exact hi mb hmb hown

lemma Content.second (hl : l.Ok) (h : Content l raw es) :
    (after l raw es).memory.getD (l.first.offset + l.first.size) 0 = (lastBytes [l.second.tag] es).headD 0 := by
  have hmb : l.second ∈ l.members := List.mem_cons_of_mem _ List.mem_cons_self
  have hzero := h.members l.second hmb 0 (hl.bound l.second hmb).1
  rw [Nat.add_zero, hl.next] at hzero
  rw [hzero, lastBytes]
  rcases List.eq_nil_or_concat' (values [l.second.tag] es) with hnil | ⟨before, b, hlast⟩
  · rw [hnil]
    exact zeros_getD _ _
  · rw [hlast, List.getLastD_concat, List.map_append, List.map_singleton, List.foldl_append, List.foldl_cons,
      List.foldl_nil, overlay_getD, written_of_string hl.strings.2.1, if_pos (by simp)]
    cases b <;> rfl

/-- **A field is separate just when it spares the second text.** -/
lemma separate_iff_spared (hl : l.Ok) (hall : (es ++ [entry]).all (accepts l)) (h : Content l raw es) :
    Separate l raw es entry ↔ Spared l es entry := by
  have hlength := h.length
  constructor
  · rintro hsep b rfl hfull
    have hfirst : l.first ∈ l.members := List.mem_cons_self
    have hbound := hl.bound l.first hfirst
    have hnot : ¬ Owns l (.bytes [l.first.tag] b) (l.first.offset + l.first.size) := by
      rintro ⟨mb, hmb, ⟨value, heq⟩, -, hhi⟩
      have htag : l.first.tag = mb.tag := (List.cons.inj (Entry.bytes.inj heq).1).1
      obtain rfl := eq_of_tag hl hfirst hmb htag
      omega
    obtain ⟨-, hmemory⟩ := after_member raw hl hfirst hall
    have hkept := hsep.memory _ hnot
    rw [hmemory, written_outside (by omega) hfull.le (by omega), if_pos ⟨hl.strings.1, hfull, rfl⟩, h.second hl] at hkept
    exact hkept.symm
  · intro hspared
    have happ := after_append raw hall
    obtain ⟨path, v, rfl, hd⟩ | ⟨b, rfl, hd⟩ | ⟨tag, b, q, hfee, rfl, -, hd⟩ | ⟨mb, hmb, b, rfl, hlen, hd⟩ |
      ⟨path, b, rfl, -, hd⟩ := apply_cases happ
    · rw [store_eq] at hd
      refine ⟨fun i _ => by rw [hd], by rw [hd], fun _ => by rw [hd], fun _ => by rw [hd], fun tag hne => ?_⟩
      rw [hd]
      dsimp only
      rw [store_numbers, if_neg]
      rintro rfl
      exact hne v rfl
    · exact ⟨fun i _ => by rw [hd], by rw [hd], fun hne => absurd rfl (hne b), fun _ => by rw [hd],
        fun _ _ => by rw [hd]⟩
    · exact ⟨fun i _ => by rw [hd], by rw [hd], fun _ => by rw [hd],
        fun hne => absurd rfl (hne tag hfee b), fun _ _ => by rw [hd]⟩
    · have hbound := hl.bound mb hmb
      have hwritten := written_length mb b
      refine ⟨fun i hi => ?_, ?_, fun _ => by rw [hd], fun _ => by rw [hd], fun _ _ => by rw [hd]⟩
      · have houtside : ¬ (mb.offset ≤ i ∧ i < mb.offset + mb.size) := fun hin => hi ⟨mb, hmb, ⟨b, rfl⟩, hin⟩
        rw [hd]
        dsimp only
        rw [written_outside (by omega) hlen houtside]
        split
        · next hend =>
          -- the null byte behind a text that fills its member
          obtain ⟨hstring, hfull, rfl⟩ := hend
          rcases List.mem_cons.mp hmb with rfl | hmb
          · rw [h.second hl, hspared b rfl hfull]
          · rcases List.mem_cons.mp hmb with rfl | hmb
            · exact (h.rest _ hl.behind).symm
            · rw [hl.strings.2.2 mb hmb] at hstring
              cases hstring
        · rfl
      · rw [hd]
        dsimp only
        exact writeAt_length (by omega)
    · exact ⟨fun i _ => by rw [hd], by rw [hd], fun _ => by rw [hd], fun _ => by rw [hd], fun _ _ => by rw [hd]⟩

variable (raw) in
/-- **Fields are separate, just when all of them spare the second text.** -/
lemma throughout_separate_iff (hl : l.Ok) (hall : es.all (accepts l)) :
    Throughout (Separate l raw) es ↔ Throughout (Spared l) es := by
  refine throughout_congr fun before entry behind heq hsep => ?_
  have hsplit : before ++ entry :: behind = (before ++ [entry]) ++ behind := by simp
  rw [heq, hsplit, List.all_append, Bool.and_eq_true] at hall
  have hbefore := hall.1
  rw [List.all_append, Bool.and_eq_true] at hbefore
  exact separate_iff_spared hl hall.1 (content raw hl hbefore.1 hsep)

end Content

/-! ### What is delivered -/

section Delivered

variable {l : Layout} {raw : Vector UInt8 64} {es : List Entry} {mb : Member} {m : Bytes} {tag : ℕ}
  {sha256 : Bytes → Hash}

lemma singleton_ne {tag tag' : ℕ} (h : tag ≠ tag') : [tag] ≠ [tag'] := fun heq => h (List.cons.inj heq).1

/-- The address is copied over what is on the stack. -/
lemma after_rawAddress (hl : l.Ok) (hall : es.all (accepts l)) :
    (after l raw es).rawAddress = (values [1] es).foldl overlay raw.toList := by
  rw [← foldl_updBytes]
  refine Effects.run_part Decoding.rawAddress (Entry.updBytes [1] overlay) (fun d entry d' happ => ?_)
    ((Effects.run_all _ apply_isSome).trans hall)
  obtain ⟨path, v, rfl, rfl⟩ | ⟨b, rfl, rfl⟩ | ⟨tag, b, q, hfee, rfl, -, rfl⟩ | ⟨mb, hmb, b, rfl, -, rfl⟩ |
    ⟨path, b, rfl, hnone, rfl⟩ := apply_cases happ
  · rw [store_eq, Entry.updBytes]
  · rw [Entry.updBytes, if_pos rfl]
  · have hne : tag ≠ 1 := fun hone => hl.fee (hone ▸ hfee)
    rw [Entry.updBytes, if_neg (singleton_ne hne)]
  · rw [Entry.updBytes, if_neg (singleton_ne (hl.tags mb hmb).1)]
  · rw [Entry.updBytes, if_neg]
    rintro rfl
    cases hnone

lemma after_fee (hl : l.Ok) (htag : l.fee = some tag) (hall : es.all (accepts l)) :
    (after l raw es).fee = (values [tag] es).foldl (fun _ b => amountOf b) 0 := by
  have hone : tag ≠ 1 := fun hone => hl.fee (hone ▸ htag)
  rw [← foldl_updBytes]
  refine Effects.run_part Decoding.fee (Entry.updBytes [tag] fun _ b => amountOf b) (fun d entry d' happ => ?_)
    ((Effects.run_all _ apply_isSome).trans hall)
  obtain ⟨path, v, rfl, rfl⟩ | ⟨b, rfl, rfl⟩ | ⟨tag', b, q, hfee, rfl, hq, rfl⟩ | ⟨mb, hmb, b, rfl, -, rfl⟩ |
    ⟨path, b, rfl, hnone, rfl⟩ := apply_cases happ
  · rw [store_eq, Entry.updBytes]
  · rw [Entry.updBytes, if_neg (singleton_ne hone.symm)]
  · obtain rfl := Option.some.inj (htag.symm.trans hfee)
    rw [Entry.updBytes, if_pos rfl, amountOf, hq, Option.getD_some]
  · have hne : mb.tag ≠ tag := fun heq => (hl.tags mb hmb).2 (heq ▸ htag)
    rw [Entry.updBytes, if_neg (singleton_ne hne)]
  · rw [Entry.updBytes, if_neg]
    rintro rfl
    rw [effects_read_fee hl htag] at hnone
    cases hnone

lemma after_numbers (tag : ℕ) (hall : es.all (accepts l)) :
    (after l raw es).numbers tag = lastNumber [tag] es := by
  refine Effects.run_part (fun d => d.numbers tag) (Entry.updNumber [tag]) (fun d entry d' happ => ?_)
    ((Effects.run_all _ apply_isSome).trans hall)
  obtain ⟨path, v, rfl, rfl⟩ | ⟨b, rfl, rfl⟩ | ⟨tag', b, q, -, rfl, -, rfl⟩ | ⟨mb, -, b, rfl, -, rfl⟩ |
    ⟨path, b, rfl, -, rfl⟩ := apply_cases happ
  · rw [store_numbers, Entry.updNumber]
  · rfl
  · rfl
  · rfl
  · rfl

lemma accepts_address (hall : es.all (accepts l)) {b : Bytes} (hb : b ∈ values [1] es) : b.length ≤ 64 := by
  have haccept := List.all_eq_true.mp hall _ (mem_values.mp hb)
  rwa [accepts, if_pos rfl, decide_eq_true_iff] at haccept

lemma accepts_fee (hl : l.Ok) (htag : l.fee = some tag) (hall : es.all (accepts l)) {b : Bytes}
    (hb : b ∈ values [tag] es) : ∃ q, readBignumToDouble b = some q := by
  have hone : tag ≠ 1 := fun hone => hl.fee (hone ▸ htag)
  have haccept := List.all_eq_true.mp hall _ (mem_values.mp hb)
  rw [accepts, if_neg hone, if_pos htag, decide_eq_true_iff] at haccept
  exact Option.isSome_iff_exists.mp (readBignumToDouble_isSome.mpr haccept)

lemma accepts_member (hl : l.Ok) (hmb : mb ∈ l.members) (hall : es.all (accepts l)) {b : Bytes}
    (hb : b ∈ values [mb.tag] es) : b.length ≤ mb.size := by
  obtain ⟨hone, hfee⟩ := hl.tags mb hmb
  have haccept := List.all_eq_true.mp hall _ (mem_values.mp hb)
  rwa [accepts, if_neg hone, if_neg hfee, find?_member hl hmb, Option.all_some, decide_eq_true_iff] at haccept

variable (raw sha256) in
/-- The text of the address has 52 characters and is written in front of the members. -/
lemma putAddress_eq (hl : l.Ok) (hall : es.all (accepts l)) : ∃ (a : Address) (text : Bytes),
    a.toList = (after l raw es).rawAddress.take 33 ∧
      encodeAddress sha256 a.toList l.addressSize = some (some (text ++ [0])) ∧ text.length = 52 ∧
      (∀ c ∈ text, c ∈ b58digitsOrdered) ∧
      putAddress l sha256 (after l raw es) =
        { after l raw es with memory := writeAt (after l raw es).memory 0 (text ++ [0]) } := by
  have hlen : (after l raw es).rawAddress.length = 64 := by
    rw [after_rawAddress hl hall, foldl_overlay_length, Vector.length_toList]
    intro b hb
    rw [Vector.length_toList]
    exact accepts_address hall hb
  have htake : ((after l raw es).rawAddress.take 33).length = 33 := by
    rw [List.length_take, hlen]
    rfl
  obtain ⟨a, ha⟩ : ∃ a : Address, a.toList = (after l raw es).rawAddress.take 33 :=
    ⟨⟨((after l raw es).rawAddress.take 33).toArray, htake⟩, by simp⟩
  obtain ⟨text, henc, hsize, hchars, -⟩ := encodeAddress_read sha256 (fun _ => 0) a hl.address
  refine ⟨a, text, ha, henc, hsize, hchars, ?_⟩
  rw [putAddress, ← ha, henc]

/-- A text is delivered just when it leaves room for its null byte. -/
lemma holds_string (hl : l.Ok) (h : Content l raw es) (hmb : mb ∈ l.members) (hstring : mb.string) :
    mb.Holds (after l raw es).memory (lastBytes [mb.tag] es) ↔ (lastBytes [mb.tag] es).length < mb.size := by
  have hbound := hl.bound mb hmb
  have hslice : (slice (after l raw es).memory mb.offset mb.size).length = mb.size :=
    slice_length (by rw [h.length]; omega)
  rw [Member.Holds, if_pos hstring]
  constructor
  · intro hprefix
    have hlen := hprefix.length_le
    rw [hslice, List.length_append, List.length_singleton] at hlen
    exact hlen
  · intro hlen
    rw [prefix_iff_getD (by rw [hslice, List.length_append, List.length_singleton]; exact hlen)]
    intro i hi
    have hsize : i < mb.size := by
      rw [List.length_append, List.length_singleton] at hi
      omega
    rw [slice_getD _ _ hsize, h.members mb hmb i hsize, lastBytes]
    rcases List.eq_nil_or_concat' (values [mb.tag] es) with hnil | ⟨before, b, hlast⟩
    · rw [lastBytes, hnil, List.getLastD_nil] at hi
      obtain rfl := Nat.lt_one_iff.mp hi
      rw [hnil]
      exact zeros_getD _ _
    · rw [lastBytes, hlast, List.getLastD_concat] at hi
      rw [hlast, List.getLastD_concat, List.map_append, List.map_singleton, List.foldl_append, List.foldl_cons,
        List.foldl_nil, overlay_getD, written_of_string hstring, if_pos hi]

/-- A hash is delivered just when there are zeros where it ends. -/
lemma holds_blob (hl : l.Ok) (hall : es.all (accepts l)) (h : Content l raw es) (hmb : mb ∈ l.members)
    (hblob : mb.string = false) : mb.Holds (after l raw es).memory (lastBytes [mb.tag] es) ↔
      ∀ i, (lastBytes [mb.tag] es).length ≤ i → i < mb.size →
        Latest (List.replicate mb.size 0 :: values [mb.tag] es) i 0 := by
  have hbound := hl.bound mb hmb
  have hmap : (values [mb.tag] es).map mb.written = values [mb.tag] es :=
    List.map_id'' (written_of_blob hblob) _
  have hlen : ∀ b ∈ values [mb.tag] es, b.length ≤ mb.size := fun b hb => accepts_member hl hmb hall hb
  have hzeros : (List.replicate mb.size (0 : UInt8)).length = mb.size := List.length_replicate
  have hslice : slice (after l raw es).memory mb.offset mb.size =
      (values [mb.tag] es).foldl overlay (List.replicate mb.size 0) := by
    rw [eq_iff_getD (slice_length (by rw [h.length]; omega))
      ((foldl_overlay_length (hzeros.symm ▸ hlen)).trans hzeros)]
    intro i hi
    rw [slice_getD _ _ hi, h.members mb hmb i hi, hmap]
  rw [Member.Holds, if_neg (by rw [hblob]; exact Bool.false_ne_true), hslice]
  exact foldl_overlay_eq_padded hzeros hlen

/-- The text of the address is that of the last in the message just when that has 33 bytes. -/
lemma holdsAddress_iff (hl : l.Ok) (hall : es.all (accepts l)) :
    HoldsAddress l sha256 (putAddress l sha256 (after l raw es)).memory (lastBytes [1] es) ↔
      (lastBytes [1] es).length = 33 := by
  obtain ⟨a, text, ha, henc, hsize, hchars, hput⟩ := putAddress_eq raw sha256 hl hall
  have haddress := hl.address
  have hsecond := hl.bound l.second (List.mem_cons_of_mem _ List.mem_cons_self)
  have htext : (text ++ [0]).length = 53 := by rw [List.length_append, hsize, List.length_singleton]
  have hstands : text ++ [0] <+: slice (putAddress l sha256 (after l raw es)).memory 0 l.addressSize := by
    rw [hput]
    exact prefix_slice_writeAt (htext.trans_le haddress) _
  have hlen : ∀ b ∈ values [1] es, b.length ≤ raw.toList.length := by
    intro b hb
    rw [Vector.length_toList]
    exact accepts_address hall hb
  rw [HoldsAddress]
  constructor
  · split
    · next hnil =>
      -- the text has no null byte at its front
      intro hempty
      obtain ⟨c, text, rfl⟩ := List.exists_cons_of_length_eq_add_one hsize
      have hzero : c = 0 := by
        have hboth := List.prefix_of_prefix_length_le hempty hstands (by simp)
        exact (List.cons_prefix_cons.mp hboth).1.symm
      have hdigit := hchars c List.mem_cons_self
      rw [hzero] at hdigit
      exact absurd hdigit (by decide)
    · rintro ⟨a', -, ha', -⟩
      rw [← ha']
      exact Vector.length_toList
  · intro h33
    rw [if_neg (List.ne_nil_of_length_pos (by rw [h33]; decide))]
    refine ⟨a, text, ?_, henc, hstands⟩
    rw [ha, after_rawAddress hl hall, lastBytes]
    rcases List.eq_nil_or_concat' (values [1] es) with hnil | ⟨before, b, hlast⟩
    · rw [lastBytes, hnil] at h33
      cases h33
    · rw [lastBytes, hlast, List.getLastD_concat] at h33
      rw [hlast, List.getLastD_concat, List.foldl_append, List.foldl_cons, List.foldl_nil, overlay, ← h33,
        List.take_left]

lemma fee_iff (hl : l.Ok) (hall : es.all (accepts l)) (htag : l.fee = some tag) :
    (after l raw es).fee = (beNat (lastBytes [tag] es) : ℚ) / 10 ^ 18 ↔ beNat (lastBytes [tag] es) < 10 ^ 32 := by
  rw [after_fee hl htag hall, lastBytes, foldl_amountOf_eq_iff (fun b hb => accepts_fee hl htag hall hb)]
  split
  · next hnil =>
    rw [hnil]
    exact iff_of_true rfl (by decide)
  · exact Iff.rfl

/-- **What is delivered of separate fields are the fields of the message, just when they fit.** -/
lemma delivered_iff_fits (hl : l.Ok) (hall : es.all (accepts l)) (h : Content l raw es) :
    Delivered l sha256 es (putAddress l sha256 (after l raw es)) ↔ Fits l es := by
  obtain ⟨a, text, -, -, hsize, -, hput⟩ := putAddress_eq raw sha256 hl hall
  have haddress := hl.address
  have hmember : ∀ mb ∈ l.members, ∀ b, mb.Holds (putAddress l sha256 (after l raw es)).memory b ↔
      mb.Holds (after l raw es).memory b := by
    intro mb hmb b
    have hbound := hl.bound mb hmb
    have htext : (text ++ [0]).length ≤ mb.offset := by
      rw [List.length_append, hsize, List.length_singleton]
      omega
    rw [Member.Holds, Member.Holds, hput, slice_writeAt htext]
  have hfirst : l.first ∈ l.members := List.mem_cons_self
  have hsecond : l.second ∈ l.members := List.mem_cons_of_mem _ List.mem_cons_self
  have hblobs : ∀ mb ∈ l.blobs, mb ∈ l.members := fun mb hmb => List.mem_cons_of_mem _ (List.mem_cons_of_mem _ hmb)
  obtain ⟨hs1, hs2, hsb⟩ := hl.strings
  constructor
  · rintro ⟨hd1, hd2, hd3, -⟩
    refine ⟨(holdsAddress_iff hl hall).mp hd1, ?_, ?_, fun mb hmb => ?_, fun tag htag => ?_⟩
    · exact (holds_string hl h hfirst hs1).mp ((hmember _ hfirst _).mp (hd2 _ hfirst))
    · exact (holds_string hl h hsecond hs2).mp ((hmember _ hsecond _).mp (hd2 _ hsecond))
    · exact (holds_blob hl hall h (hblobs mb hmb) (hsb mb hmb)).mp
        ((hmember _ (hblobs mb hmb) _).mp (hd2 _ (hblobs mb hmb)))
    · have hfee := hd3 tag htag
      rw [hput] at hfee
      exact (fee_iff hl hall htag).mp hfee
  · rintro ⟨hf1, hf2, hf3, hf4, hf5⟩
    refine ⟨(holdsAddress_iff hl hall).mpr hf1, fun mb hmb => ?_, fun tag htag => ?_, fun tag _ => ?_⟩
    · rw [hmember mb hmb]
      rcases List.mem_cons.mp hmb with rfl | hrest
      · exact (holds_string hl h hfirst hs1).mpr hf2
      · rcases List.mem_cons.mp hrest with rfl | hblob
        · exact (holds_string hl h hsecond hs2).mpr hf3
        · exact (holds_blob hl hall h hmb (hsb mb hblob)).mpr (hf4 mb hblob)
    · rw [hput]
      exact (fee_iff hl hall htag).mpr (hf5 tag htag)
    · rw [hput]
      exact after_numbers tag hall

lemma handle_eq (l : Layout) (sha256 : Bytes → Hash) (raw : Vector UInt8 64) (m : Bytes) : handle l sha256 raw m =
    if Readable l m then (true, putAddress l sha256 (after l raw (entries l m)))
    else (false, after l raw (entries l m)) := by
  unfold handle
  by_cases h : Readable l m
  · obtain ⟨rest, hdecode⟩ := pbDecode_of_accepts (accepts l) apply_isSome h (start l raw)
    rw [hdecode, if_pos h, after, entries]
  · rw [pbDecode_of_not_accepts (accepts l) apply_isSome h, if_neg h, after, entries]

lemma faithful_handle_iff (hl : l.Ok) : Faithful l sha256 raw m (handle l sha256 raw m) ↔
    (Readable l m → Fits l (entries l m) ∧ Throughout (Spared l) (entries l m)) := by
  have hhandle := handle_eq l sha256 raw m
  by_cases h : Readable l m
  · rw [if_pos h] at hhandle
    have hseparate := throughout_separate_iff raw hl h.2
    have hdelivered : Throughout (Separate l raw) (entries l m) →
        (Delivered l sha256 (entries l m) (handle l sha256 raw m).2 ↔ Fits l (entries l m)) := by
      intro hsep
      rw [hhandle]
      exact delivered_iff_fits hl h.2 (content raw hl h.2 hsep)
    constructor
    · intro hfaithful _
      obtain ⟨hd, hsep⟩ := hfaithful (by rw [hhandle])
      exact ⟨(hdelivered hsep).mp hd, hseparate.mp hsep⟩
    · intro hcond _
      obtain ⟨hfits, hspared⟩ := hcond h
      have hsep := hseparate.mpr hspared
      exact ⟨(hdelivered hsep).mpr hfits, hsep⟩
  · rw [if_neg h] at hhandle
    refine iff_of_true (fun htrue => ?_) fun hyes => absurd hyes h
    rw [hhandle] at htrue
    cases htrue

lemma handle_of_fits (hl : l.Ok) (hread : Readable l m) (hfits : Fits l (entries l m))
    (hspared : Throughout (Spared l) (entries l m)) :
    ∃ d, handle l sha256 raw m = (true, d) ∧ Delivered l sha256 (entries l m) d := by
  have hhandle := (handle_eq l sha256 raw m).trans (if_pos hread)
  have hfaithful : Faithful l sha256 raw m (handle l sha256 raw m) :=
    (faithful_handle_iff hl).mpr fun _ => ⟨hfits, hspared⟩
  rw [hhandle] at hfaithful
  exact ⟨_, hhandle, (hfaithful rfl).1⟩

end Delivered

/-- **The receipts and events that are delivered faithfully**: the values fit, and no first text that fills
its member finds a second one. -/
theorem faithful_iff (sha256 : Bytes → Hash) (raw : Vector UInt8 64) (m : Bytes) :
    (Faithful receipt sha256 raw m (handleReceiptResponse sha256 raw m) ↔
      (Readable receipt m → Fits receipt (entries receipt m) ∧ Throughout (Spared receipt) (entries receipt m))) ∧
    (Faithful event sha256 raw m (handleEventResponse sha256 raw m) ↔
      (Readable event m → Fits event (entries event m) ∧ Throughout (Spared event) (entries event m))) :=
  ⟨faithful_handle_iff receipt_ok, faithful_handle_iff event_ok⟩

/-- A receipt with an address of 33 bytes, `ret` "x" and behind it a `status` of 16 characters. -/
def fullStatus : Bytes :=
  [0x0a, 0x21, 0x02] ++ List.replicate 32 0 ++ ([0x1a, 0x01, 0x78] ++ ([0x12, 0x10] ++ List.replicate 16 0x61))

/-- An empty receipt has the text of an address that is not there, and a `status` of 16 characters takes the
first byte of `ret`, whatever is on the stack. -/
lemma fullStatus_not_faithful (sha256 : Bytes → Hash) (raw : Vector UInt8 64) :
    (handleReceiptResponse sha256 raw []).1 = true ∧
      ¬ Faithful receipt sha256 raw [] (handleReceiptResponse sha256 raw []) ∧
      (handleReceiptResponse sha256 raw fullStatus).1 = true ∧
      lastBytes [3] (entries receipt fullStatus) = [0x78] ∧
      (handleReceiptResponse sha256 raw fullStatus).2.memory.getD 72 0 = 0 ∧
      ¬ Faithful receipt sha256 raw fullStatus (handleReceiptResponse sha256 raw fullStatus) := by
  have hempty : Readable receipt [] := by decide
  have hread : Readable receipt fullStatus := by decide +kernel
  have hentries : entries receipt fullStatus =
      [.bytes [1] (0x02 :: List.replicate 32 0), .bytes [3] [0x78]] ++ [.bytes [2] (List.replicate 16 0x61)] := by
    decide +kernel
  have hhandle : ∀ m, Readable receipt m → handleReceiptResponse sha256 raw m =
      (true, putAddress receipt sha256 (after receipt raw (entries receipt m))) := by
    intro m hm
    have h := handle_eq receipt sha256 raw m
    rwa [if_pos hm] at h
  have hall := hread.2
  rw [hentries] at hall
  have hstatus : (after receipt raw ([.bytes [1] (0x02 :: List.replicate 32 0), .bytes [3] [0x78]] ++
      [.bytes [2] (List.replicate 16 0x61)])).memory = writeAt (after receipt raw
        [.bytes [1] (0x02 :: List.replicate 32 0), .bytes [3] [0x78]]).memory 56 (List.replicate 16 0x61 ++ [0]) :=
    (after_member raw receipt_ok List.mem_cons_self hall).2
  have hspared : Throughout (Spared receipt)
      [.bytes [1] (0x02 :: List.replicate 32 0), .bytes [3] [0x78]] := by
    rintro before entry behind heq b rfl
    have hmem : Entry.bytes [2] b ∈ [Entry.bytes [1] (0x02 :: List.replicate 32 0), .bytes [3] [0x78]] := by
      rw [heq]
      simp [receipt]
    simp at hmem
  have hcontent := content raw receipt_ok (by decide)
    ((throughout_separate_iff raw receipt_ok (by decide)).mpr hspared)
  have hlen := hcontent.length
  refine ⟨by rw [hhandle _ hempty], fun h => ?_, by rw [hhandle _ hread], by rw [hentries]; rfl, ?_, fun h => ?_⟩
  · obtain ⟨hfits, -⟩ := (faithful_handle_iff receipt_ok).mp h hempty
    have h33 : (0 : ℕ) = 33 := hfits.address
    cases h33
  · obtain ⟨-, text, -, -, hsize, -, hput⟩ := putAddress_eq raw sha256 receipt_ok hread.2
    rw [hhandle _ hread, hput]
    dsimp only
    rw [writeAt_getD (Nat.zero_le _), if_neg (by rw [List.length_append, hsize]; decide), hentries, hstatus,
      writeAt_getD (by rw [hlen]; decide)]
    rfl
  · obtain ⟨hfits, -⟩ := (faithful_handle_iff receipt_ok).mp h hread
    have hfirst := hfits.first
    rw [hentries] at hfirst
    exact absurd hfirst (by decide)

theorem full_status_clears_ret :
    (handleReceiptResponse Libaergo.sha256 (Vector.replicate 64 0) []).1 = true ∧
      ¬ Faithful receipt Libaergo.sha256 (Vector.replicate 64 0) []
        (handleReceiptResponse Libaergo.sha256 (Vector.replicate 64 0) []) ∧
      (handleReceiptResponse Libaergo.sha256 (Vector.replicate 64 0) fullStatus).1 = true ∧
      lastBytes [3] (entries receipt fullStatus) = [0x78] ∧
      (handleReceiptResponse Libaergo.sha256 (Vector.replicate 64 0) fullStatus).2.memory.getD 72 0 = 0 ∧
      ¬ Faithful receipt Libaergo.sha256 (Vector.replicate 64 0) fullStatus
        (handleReceiptResponse Libaergo.sha256 (Vector.replicate 64 0) fullStatus) :=
  fullStatus_not_faithful Libaergo.sha256 (Vector.replicate 64 0)

/-! ### Well-formed messages -/

section Encoded

variable {l : Layout} {m : Bytes} {es : List Entry}

/-- **A well-formed message is read as it was encoded.** -/
theorem entries_encodes (hm : Encodes l.fields [] m es) :
    (∀ tag, lastNumber [tag] (entries l m) = lastNumber [tag] es) ∧
      (∀ tag, ((effects l).read [tag]).isSome → values [tag] (entries l m) = values [tag] es) ∧
      (Readable l m ↔ (entries l m).all (accepts l)) := by
  have hrecord := record_encodes (effects l).callbacks hm
  have hentries : entries l m = es.filter (Entry.visible (effects l).callbacks) := congrArg Prod.fst hrecord
  refine ⟨fun tag => ?_, fun tag htag => ?_, ?_⟩
  · rw [hentries, lastNumber_filter]
  · rw [hentries, values_filter htag]
  · unfold Readable
    rw [hrecord]
    exact and_iff_right rfl

end Encoded

/-! ### The receipts and events of an instance -/

/-- The receipt as the program reads it; of the fee, the bytes that it was made of. -/
def Decoding.toReceipt (d : Decoding) (es : List Entry) : Receipt where
  contractAddress := Query.text d.memory
  status := Query.text (d.memory.drop receipt.first.offset)
  ret := Query.text (d.memory.drop receipt.second.offset)
  txHash := slice d.memory 2164 32
  blockHash := slice d.memory 2128 32
  feeUsed := lastBytes [5] es
  gasUsed := (d.numbers 15).toNat
  blockNo := (d.numbers 9).toNat
  txIndex := (d.numbers 11 % 2 ^ 32).toNat
  feeDelegation := d.numbers 14 ≠ 0

/-- The receipt in a message, with the text of its address. -/
def receiptOf (address : Bytes) (es : List Entry) : Receipt where
  contractAddress := address
  status := lastBytes [2] es
  ret := lastBytes [3] es
  txHash := padded 32 (lastBytes [4] es)
  blockHash := padded 32 (lastBytes [10] es)
  feeUsed := lastBytes [5] es
  gasUsed := (lastNumber [15] es).toNat
  blockNo := (lastNumber [9] es).toNat
  txIndex := (lastNumber [11] es % 2 ^ 32).toNat
  feeDelegation := lastNumber [14] es ≠ 0

section Instance

variable (sha256 : Bytes → Hash) (raw : Vector UInt8 64)

/-- The receipt in a message; where the decoding fails, the numbers are not copied. -/
def decodeReceipt (m : Bytes) : Except Receipt Receipt :=
  match handleReceiptResponse sha256 raw m with
  | (false, d) =>
    .error ({ d with numbers := fun _ => 0 }.toReceipt ((entries receipt m).takeWhile (accepts receipt)))
  | (true, d) => .ok (d.toReceipt (entries receipt m))

def decodeEvent (m : Bytes) : Option Bytes :=
  match handleEventResponse sha256 raw m with
  | (false, _) => none
  | (true, d) => some d.memory

def reading (E : Env) : Env :=
  { E with codec := { E.codec with receipt := decodeReceipt sha256 raw, event := decodeEvent sha256 raw } }

variable {sha256 raw} {mb : Member} {d : Decoding} {es : List Entry} {m value : Bytes} {E : Env} {w : World}
  {r : ReqId}

lemma text_of_holds (h : mb.Holds d.memory value) (hstring : mb.string) (hzero : 0 ∉ value) :
    Query.text (d.memory.drop mb.offset) = value := by
  rw [Member.Holds, if_pos hstring, slice] at h
  obtain ⟨rest, hrest⟩ := (List.prefix_take_iff.mp h).1
  rw [← hrest, List.append_assoc, List.singleton_append, Query.text_append_nul]
  refine List.takeWhile_eq_self_iff.mpr fun c hc => decide_eq_true ?_
  rintro rfl
  exact hzero hc

lemma address_of_holds (h : HoldsAddress receipt sha256 d.memory value) (hne : value ≠ []) :
    ∃ a : Address, a.toList = value ∧ decodeAddress sha256 (fun _ => 0) (Query.text d.memory) = some a := by
  rw [HoldsAddress, if_neg hne] at h
  obtain ⟨a, text, ha, henc, hprefix⟩ := h
  obtain ⟨text', henc', -, hdigits, hdecode⟩ := encodeAddress_read sha256 (fun _ => 0) a receipt_ok.address
  obtain rfl : text = text' := List.append_cancel_right (Option.some.inj (Option.some.inj (henc.symm.trans henc')))
  have hzero : 0 ∉ text := fun h0 => absurd (hdigits 0 h0) (by decide)
  have hholds : Member.Holds ⟨1, 0, receipt.addressSize, true⟩ d.memory text := hprefix
  have htext : Query.text d.memory = text := text_of_holds hholds rfl hzero
  exact ⟨a, ha, htext.symm ▸ hdecode⟩

/-- **What the program reads of a structure that is delivered is the receipt in the message.** -/
lemma toReceipt_eq (h : Delivered receipt sha256 es d) (hstatus : 0 ∉ lastBytes [2] es)
    (hret : 0 ∉ lastBytes [3] es) : d.toReceipt es = receiptOf (Query.text d.memory) es := by
  have hfirst := h.members receipt.first (by decide)
  have hsecond := h.members receipt.second (by decide)
  have htxHash := h.members ⟨4, 2164, 32, false⟩ (by decide)
  have hblockHash := h.members ⟨10, 2128, 32, false⟩ (by decide)
  have hnumber : ∀ tag ∈ receipt.numbers, d.numbers tag = lastNumber [tag] es := h.numbers
  unfold Decoding.toReceipt receiptOf
  rw [text_of_holds hfirst rfl hstatus, text_of_holds hsecond rfl hret, hnumber 15 (by decide),
    hnumber 9 (by decide), hnumber 11 (by decide), hnumber 14 (by decide)]
  rw [Member.Holds, if_neg Bool.false_ne_true] at htxHash hblockHash
  rw [htxHash, hblockHash]
  rfl

lemma decodeReceipt_of_fits (hread : Readable receipt m) (hfits : Fits receipt (entries receipt m))
    (hspared : Throughout (Spared receipt) (entries receipt m)) (hstatus : 0 ∉ lastBytes [2] (entries receipt m))
    (hret : 0 ∉ lastBytes [3] (entries receipt m)) : ∃ (a : Address) (address : Bytes),
      a.toList = lastBytes [1] (entries receipt m) ∧ decodeAddress sha256 (fun _ => 0) address = some a ∧
        decodeReceipt sha256 raw m = .ok (receiptOf address (entries receipt m)) := by
  obtain ⟨d, hhandle, hdelivered⟩ := handle_of_fits receipt_ok hread hfits hspared
  have hne : lastBytes [1] (entries receipt m) ≠ [] :=
    List.ne_nil_of_length_pos (by rw [hfits.address]; decide)
  obtain ⟨a, ha, hdecode⟩ := address_of_holds hdelivered.address hne
  refine ⟨a, _, ha, hdecode, ?_⟩
  rw [decodeReceipt, handleReceiptResponse, hhandle]
  exact congrArg Except.ok (toReceipt_eq hdelivered hstatus hret)

/-- **A receipt that fits reaches the caller as it is in the message**, in the receipt that was handed over or
with the callback, and the transaction does not wait for it any more. -/
theorem handleReceiptResponse_of_fits (E : Env) (w : World) (r : ReqId) (hread : Readable receipt m)
    (hfits : Fits receipt (entries receipt m)) (hspared : Throughout (Spared receipt) (entries receipt m))
    (hstatus : 0 ∉ lastBytes [2] (entries receipt m)) (hret : 0 ∉ lastBytes [3] (entries receipt m)) :
    ∃ (a : Address) (address : Bytes), a.toList = lastBytes [1] (entries receipt m) ∧
      decodeAddress sha256 (fun _ => 0) address = some a ∧
      Libaergo.handleReceiptResponse (reading sha256 raw E) w r m =
        (true, settleParent
          (if (w.heap r).callback.isSome then w.invoke r (.receipt (receiptOf address (entries receipt m)))
            else w.setReceipt (w.heap r).returnPtr
              (.decoded (w.heap r).txnHash (receiptOf address (entries receipt m)))) r) := by
  obtain ⟨a, address, ha, hdecode, hreceipt⟩ := decodeReceipt_of_fits hread hfits hspared hstatus hret
  refine ⟨a, address, ha, hdecode, ?_⟩
  unfold Libaergo.handleReceiptResponse reading
  dsimp only
  rw [hreceipt]

/-- **A message with a value that is too long, or that does not decode, is no receipt and no event.** -/
theorem handlers_of_not_readable (E : Env) (w : World) (r : ReqId) :
    (¬ Readable receipt m → (Libaergo.handleReceiptResponse (reading sha256 raw E) w r m).1 = false) ∧
      (¬ Readable event m → Libaergo.handleEventResponse (reading sha256 raw E) w r m = (false, w)) := by
  refine ⟨fun h => ?_, fun h => ?_⟩
  · have hhandle : handleReceiptResponse sha256 raw m = (false, after receipt raw (entries receipt m)) :=
      (handle_eq receipt sha256 raw m).trans (if_neg h)
    unfold Libaergo.handleReceiptResponse reading decodeReceipt
    dsimp only
    rw [hhandle]
  · have hhandle : handleEventResponse sha256 raw m = (false, after event raw (entries event m)) :=
      (handle_eq event sha256 raw m).trans (if_neg h)
    unfold Libaergo.handleEventResponse reading decodeEvent
    dsimp only
    rw [hhandle]

/-- **An event that fits reaches the subscriber**, in a structure with the fields of the message. -/
theorem handleEventResponse_of_fits (E : Env) (w : World) (r : ReqId) (hread : Readable event m)
    (hfits : Fits event (entries event m)) (hspared : Throughout (Spared event) (entries event m)) :
    ∃ d, Delivered event sha256 (entries event m) d ∧
      Libaergo.handleEventResponse (reading sha256 raw E) w r m = (true, w.invoke r (.event d.memory)) := by
  obtain ⟨d, hhandle, hdelivered⟩ := handle_of_fits event_ok hread hfits hspared
  refine ⟨d, hdelivered, ?_⟩
  unfold Libaergo.handleEventResponse reading decodeEvent handleEventResponse
  dsimp only
  rw [hhandle]

end Instance

end Libaergo.Delivery
