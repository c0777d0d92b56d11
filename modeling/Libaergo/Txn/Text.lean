import Libaergo.Txn.Defs

/-!
# What the encoders write

The two encoders on their own: `preimage` is the text `calculate_tx_hash` hashes, `Txn.body` the
protobuf fields of a `TxBody`, `Txn.tx` those of a `Tx`, and `frame` puts the 5-byte header in front
of a content.  `calculateTxHash_eq` and `encodeTransaction_eq` say when each succeeds (the buffer is
large enough) and what it then leaves.
-/

namespace Libaergo

open Lib Nanopb

/-! ### The hash preimage -/

/-- The recipient field as both encoders take it. -/
def Txn.recipientBytes (txn : Txn) : Bytes :=
  if txn.hasRecipient then txn.recipient.toList else []

def preimage (txn : Txn) (includeSignature : Bool) : Bytes :=
  leBytes 8 txn.nonce.toNat ++ (txn.account.toList ++ (txn.recipientBytes ++ (txn.amount ++
    (txn.payload.getD [] ++ (leBytes 8 txn.gasLimit.toNat ++ ((leBytes 8 txn.gasPrice.toNat).take 1 ++
      (leBytes 4 txn.type.toNat ++ (txn.chainIdHash.toList ++
        (if includeSignature then txn.sign else [])))))))))

/-- The step `f` copies `bs` into the buffer of `calculate_tx_hash`. -/
def Fills (f : Bytes → Option Bytes) (bs : Bytes) : Prop :=
  ∀ buf, buf.length ≤ 4096 → f buf = putBytes buf bs

lemma fills_putBytes (bs : Bytes) : Fills (fun buf => putBytes buf bs) bs := fun _ _ => rfl

lemma fills_some : Fills some [] := fun buf h => by simp [putBytes, h]

lemma fills_putIf (c : Prop) [Decidable c] (bs : Bytes) :
    Fills (fun buf => putIf c buf bs) (if c then bs else []) := by
  intro buf h
  by_cases hc : c
  · simp [putIf, hc]
  · simpa [putIf, hc] using fills_some buf h

lemma fills_putString (str : Option Bytes) :
    Fills (fun buf => putString buf str) (str.getD []) := by
  cases str with
  | none => exact fills_some
  | some bs => exact fills_putBytes bs

lemma Fills.bind {f g : Bytes → Option Bytes} {as bs : Bytes} (hf : Fills f as) (hg : Fills g bs) :
    Fills (fun buf => f buf >>= g) (as ++ bs) := by
  intro buf h
  show f buf >>= g = _
  rw [hf buf h]
  by_cases ha : buf.length + as.length ≤ 4096
  · have hb : (buf ++ as).length ≤ 4096 := by simpa using ha
    have h1 : putBytes buf as = some (buf ++ as) := by simp [putBytes, ha]
    rw [h1]
    refine (hg _ hb).trans ?_
    simp [putBytes, Nat.add_assoc]
  · have h1 : putBytes buf as = none := by simp [putBytes, ha]
    have h2 : ¬ buf.length + (as ++ bs).length ≤ 4096 := by
      rw [List.length_append]
      omega
    rw [h1, putBytes, if_neg h2]
    rfl

/-- **The hash is that of the preimage**, when the buffer holds it. -/
theorem calculateTxHash_eq (sha256 : Bytes → Hash) (txn : Txn) (includeSignature : Bool) :
    calculateTxHash sha256 txn includeSignature =
      if (preimage txn includeSignature).length ≤ 4096 then
        some (sha256 (preimage txn includeSignature))
      else none := by
  have hfill : Fills _ (preimage txn includeSignature) :=
    (fills_putBytes (leBytes 8 txn.nonce.toNat)).bind <|
    (fills_putBytes txn.account.toList).bind <|
    (fills_putIf txn.hasRecipient txn.recipient.toList).bind <|
    (fills_putBytes txn.amount).bind <|
    (fills_putString txn.payload).bind <|
    (fills_putBytes (leBytes 8 txn.gasLimit.toNat)).bind <|
    (fills_putBytes ((leBytes 8 txn.gasPrice.toNat).take 1)).bind <|
    (fills_putBytes (leBytes 4 txn.type.toNat)).bind <|
    (fills_putBytes txn.chainIdHash.toList).bind <|
    fills_putIf (includeSignature = true) txn.sign
  have h0 := hfill [] (by simp)
  have hmap : calculateTxHash sha256 txn includeSignature =
      (putBytes [] (preimage txn includeSignature)).map sha256 := by
    rw [← h0]
    simp only [calculateTxHash, encodeBigint, Option.bind_eq_bind, Option.map_eq_bind,
      Option.bind_assoc]
    rfl
  rw [hmap, putBytes]
  by_cases h : (preimage txn includeSignature).length ≤ 4096
  · simp [h]
  · simp [h]

/-! ### The protobuf text -/

/-- A static number: left out at its default. -/
def numField (k n : ℕ) : List Wire.Field := if n = 0 then [] else [⟨k, .varint n⟩]

/-- A byte string, empty or not. -/
def lenField (k : ℕ) (bs : Bytes) : List Wire.Field := [⟨k, .len bs⟩]

/-- A blob: left out when empty. -/
def blobField (k : ℕ) (blob : Bytes) : List Wire.Field :=
  if blob.length = 0 then [] else lenField k blob

/-- A string: left out when it is a null pointer. -/
def stringField (k : ℕ) : Option Bytes → List Wire.Field
  | none => []
  | some str => lenField k str

/-- The fields of a `TxBody` before the signature. -/
def Txn.unsignedBody (txn : Txn) : List Wire.Field :=
  numField 1 txn.nonce.toNat ++ (blobField 2 txn.account.toList ++
    (blobField 3 txn.recipientBytes ++ (blobField 4 txn.amount ++ (stringField 5 txn.payload ++
      (numField 6 txn.gasLimit.toNat ++ (lenField 7 (varuint64Bytes txn.gasPrice) ++
        (numField 8 txn.type.toNat ++ blobField 9 txn.chainIdHash.toList)))))))

def Txn.body (txn : Txn) : List Wire.Field := txn.unsignedBody ++ blobField 10 txn.sign

/-- The fields of a signed `Tx`. -/
def Txn.tx (txn : Txn) (hash : Hash) : List Wire.Field :=
  lenField 1 hash.toList ++ lenField 2 (Wire.encode txn.body)

/-- The text of the `TxList` of one signed transaction. -/
def Txn.txList (txn : Txn) (hash : Hash) : Bytes :=
  Wire.encode (lenField 1 (Wire.encode (txn.tx hash)))

/-- The lengths a C object can have, with room to add a few of them. -/
structure Txn.Sized (txn : Txn) : Prop where
  amount : txn.amount.length < 2 ^ 60
  payload : (txn.payload.getD []).length < 2 ^ 60
  sign : txn.sign.length < 2 ^ 60

/-! ### Lengths -/

lemma text_num_length_le (k n : ℕ) : (Wire.encode (numField k n)).length ≤ 20 := by
  have h1 := varint_length_le (k * 8)
  have h2 := varint_length_le n
  unfold numField
  split
  · simp [Wire.encode]
  · simp [Wire.encode, Wire.Field.text, Wire.Value.wt, Wire.Value.payload]
    omega

lemma text_len_length_le (k : ℕ) (bs : Bytes) :
    (Wire.encode (lenField k bs)).length ≤ 20 + bs.length := by
  have h1 := varint_length_le (k * 8 + 2)
  have h2 := varint_length_le bs.length
  simp [lenField, Wire.encode, Wire.Field.text, Wire.Value.wt, Wire.Value.payload]
  omega

lemma text_blob_length_le (k : ℕ) (bs : Bytes) :
    (Wire.encode (blobField k bs)).length ≤ 20 + bs.length := by
  unfold blobField
  split
  · simp [Wire.encode]
  · exact text_len_length_le k bs

lemma text_string_length_le (k : ℕ) (str : Option Bytes) :
    (Wire.encode (stringField k str)).length ≤ 20 + (str.getD []).length := by
  cases str with
  | none => simp [stringField, Wire.encode]
  | some bs => exact text_len_length_le k bs

lemma varuint64Bytes_length_le (v : UInt64) : (varuint64Bytes v).length ≤ 8 := by
  have h := (List.dropWhile_sublist (l := (beBytes 8 v.toNat).take 7) (· = 0)).length_le
  simp only [varuint64Bytes, List.length_append, List.length_drop, beBytes_length] at h ⊢
  simp at h
  omega

lemma recipientBytes_length_le (txn : Txn) : txn.recipientBytes.length ≤ 33 := by
  unfold Txn.recipientBytes
  split <;> simp

lemma unsignedBody_length_le (txn : Txn) :
    (Wire.encode txn.unsignedBody).length ≤
      286 + txn.amount.length + (txn.payload.getD []).length := by
  have h1 := text_num_length_le 1 txn.nonce.toNat
  have h2 := text_blob_length_le 2 txn.account.toList
  have h3 := text_blob_length_le 3 txn.recipientBytes
  have h4 := text_blob_length_le 4 txn.amount
  have h5 := text_string_length_le 5 txn.payload
  have h6 := text_num_length_le 6 txn.gasLimit.toNat
  have h7 := text_len_length_le 7 (varuint64Bytes txn.gasPrice)
  have h8 := text_num_length_le 8 txn.type.toNat
  have h9 := text_blob_length_le 9 txn.chainIdHash.toList
  have hr := recipientBytes_length_le txn
  have hv := varuint64Bytes_length_le txn.gasPrice
  simp only [Vector.length_toList] at h2 h9
  simp only [Txn.unsignedBody, Wire.encode_append, List.length_append]
  omega

lemma body_length_le (txn : Txn) :
    (Wire.encode txn.body).length ≤
      306 + txn.amount.length + (txn.payload.getD []).length + txn.sign.length := by
  have h1 := unsignedBody_length_le txn
  have h2 := text_blob_length_le 10 txn.sign
  rw [Txn.body, Wire.encode_append, List.length_append]
  omega

lemma tx_length_le (txn : Txn) (hash : Hash) :
    (Wire.encode (txn.tx hash)).length ≤
      378 + txn.amount.length + (txn.payload.getD []).length + txn.sign.length := by
  have h0 := body_length_le txn
  have h1 := text_len_length_le 1 hash.toList
  have h2 := text_len_length_le 2 (Wire.encode txn.body)
  rw [Vector.length_toList] at h1
  rw [Txn.tx, Wire.encode_append, List.length_append]
  omega

lemma txList_length_le (txn : Txn) (hash : Hash) :
    (txn.txList hash).length ≤
      398 + txn.amount.length + (txn.payload.getD []).length + txn.sign.length := by
  have h0 := tx_length_le txn hash
  have h1 := text_len_length_le 1 (Wire.encode (txn.tx hash))
  rw [Txn.txList]
  omega

/-! ### The callbacks write these fields -/

lemma emits_len (field : PbField) {bs : Bytes} (ht : field.tag < 2 ^ 29)
    (hw : wireType field.ltype = 2) (h : bs.length < 2 ^ 64) :
    Emits (fun s => pbEncodeTagForField field s >>= pbEncodeString bs)
      (Wire.encode (lenField field.tag bs)) := by
  have := (emits_pbEncodeTagForField field ht).bind (emits_pbEncodeString h)
  rw [hw] at this
  simpa [lenField, Wire.encode, Wire.Field.text, Wire.Value.wt, Wire.Value.payload] using this

lemma emits_blob {k : ℕ} {bs : Bytes} (hk : k < 2 ^ 29) (h : bs.length < 2 ^ 64) :
    Emits (encodeField ⟨k, .bytes⟩ (.callback (some (encodeBlob bs))))
      (Wire.encode (blobField k bs)) := by
  refine Emits.callback ?_
  by_cases h0 : bs.length = 0
  · have he : encodeBlob bs ⟨k, .bytes⟩ = fun s => pure s := by
      funext s
      simp only [encodeBlob, if_pos h0]
    rw [he, blobField, if_pos h0]
    exact emits_pure
  · have he : encodeBlob bs ⟨k, .bytes⟩ =
        fun s => pbEncodeTagForField ⟨k, .bytes⟩ s >>= pbEncodeString bs := by
      funext s
      simp only [encodeBlob, if_neg h0]
    rw [he, blobField, if_neg h0]
    exact emits_len _ hk rfl h

lemma emits_string {k : ℕ} {str : Option Bytes} (hk : k < 2 ^ 29)
    (h : (str.getD []).length < 2 ^ 64) :
    Emits (encodeField ⟨k, .bytes⟩ (.callback (some (encodeString str))))
      (Wire.encode (stringField k str)) := by
  refine Emits.callback ?_
  cases str with
  | none => exact emits_pure
  | some bs => exact emits_len ⟨k, .bytes⟩ hk rfl h

lemma emits_varuint64 {k : ℕ} (v : UInt64) (hk : k < 2 ^ 29) :
    Emits (encodeField ⟨k, .bytes⟩ (.callback (some (encodeVaruint64 v))))
      (Wire.encode (lenField k (varuint64Bytes v))) := by
  have hv := varuint64Bytes_length_le v
  exact Emits.callback (emits_len ⟨k, .bytes⟩ hk rfl (by omega))

lemma emits_num {k n : ℕ} (hk : k < 2 ^ 29) (h : n < 2 ^ 64) :
    Emits (encodeField ⟨k, .uvarint⟩ (.uvarint n)) (Wire.encode (numField k n)) :=
  emits_encodeField_uvarint ⟨k, .uvarint⟩ hk rfl h

/-- **`encode_transaction_body` writes the fields of the body**, field by field. -/
lemma emits_txBodyFields {txn : Txn} (h : txn.Sized) :
    Emits (pbEncode (txBodyFields txn)) (Wire.encode txn.body) := by
  have hn := txn.nonce.toNat_lt
  have hg := txn.gasLimit.toNat_lt
  have ht := txn.type.toNat_lt
  have hr := recipientBytes_length_le txn
  have ha := h.amount
  have hp := h.payload
  have hs := h.sign
  have hrec : Emits _ (Wire.encode (blobField 3 txn.recipientBytes)) :=
    emits_blob (by omega) (by omega)
  have hfields : Emits (pbEncode (txBodyFields txn)) _ :=
    (emits_num (by omega) hn).cons <|
    (emits_blob (by omega) (by simp)).cons <|
    hrec.cons <|
    (emits_blob (by omega) (by omega)).cons <|
    (emits_string (by omega) (by omega)).cons <|
    (emits_num (by omega) hg).cons <|
    (emits_varuint64 txn.gasPrice (by omega)).cons <|
    (emits_num (by omega) (by omega)).cons <|
    (emits_blob (by omega) (by simp)).cons <|
    (emits_blob (by omega) (by omega)).cons pbEncode_nil
  simpa [Txn.body, Txn.unsignedBody, Wire.encode_append, List.append_assoc] using hfields

/-- Without a signature the body stands alone: this is the mode of the Ledger path. -/
lemma emits_bareBody {txn : Txn} (h : txn.Sized) (hs : txn.sign = []) (field : PbField) :
    Emits (encodeTransactionBody txn field) (Wire.encode txn.unsignedBody) := by
  have he : encodeTransactionBody txn field = pbEncode (txBodyFields txn) := by
    funext s
    simp [encodeTransactionBody, hs]
  have hb : txn.body = txn.unsignedBody := by simp [Txn.body, blobField, hs]
  rw [he, ← hb]
  exact emits_txBodyFields h

lemma emits_signedBody {txn : Txn} (h : txn.Sized) (hs : 0 < txn.sign.length) {k : ℕ}
    (hk : k < 2 ^ 29) :
    Emits (encodeTransactionBody txn ⟨k, .bytes⟩)
      (Wire.encode (lenField k (Wire.encode txn.body))) := by
  have hl := body_length_le txn
  have ha := h.amount
  have hp := h.payload
  have hsg := h.sign
  have he : encodeTransactionBody txn ⟨k, .bytes⟩ = fun s =>
      pbEncodeTagForField ⟨k, .bytes⟩ s >>= pbEncodeSubmessage (txBodyFields txn) := by
    funext s
    simp only [encodeTransactionBody, if_pos hs]
  have hsub := (emits_txBodyFields h).submessage (by omega)
  have := (emits_pbEncodeTagForField ⟨k, .bytes⟩ hk).bind hsub
  rw [he]
  simpa [lenField, Wire.encode, Wire.Field.text, Wire.Value.wt, Wire.Value.payload, wireType]
    using this

lemma emits_txFields {txn : Txn} (h : txn.Sized) (hs : 0 < txn.sign.length) (hash : Hash) :
    Emits (pbEncode (txFields hash txn)) (Wire.encode (txn.tx hash)) := by
  have hhash : blobField 1 hash.toList = lenField 1 hash.toList := by simp [blobField]
  have hfields : Emits (pbEncode (txFields hash txn)) _ :=
    (emits_blob (by omega) (by simp)).cons <|
    (Emits.callback (emits_signedBody h hs (by omega))).cons pbEncode_nil
  rw [hhash] at hfields
  simpa [Txn.tx, Wire.encode_append] using hfields

/-! ### The whole message -/

/-- `*psize - 5` in `size_t` -/
def roomOf (psize : ℕ) : ℕ := (psize + (2 ^ 64 - 5)) % 2 ^ 64

lemma roomOf_eq {psize : ℕ} (h5 : 5 ≤ psize) (h : psize < 2 ^ 64) : roomOf psize = psize - 5 := by
  unfold roomOf
  omega

/-- The text `encode_transaction` leaves in `error`. -/
def streamFullError : String := "transaction encoding failed: " ++ "stream full" ++ "\n"

/-- **`encode_transaction`, completely.**  The preimage has to fit its buffer, or the hash writes
past it; the content has to fit the output buffer, or the call fails. -/
theorem encodeTransaction_eq (sha256 : Bytes → Hash) (psize : ℕ) {txn : Txn} (h : txn.Sized)
    (hs : 0 < txn.sign.length) :
    encodeTransaction sha256 psize txn =
      if roomOf psize < 1 then some (.error streamFullError)
      else if 4096 < (preimage txn true).length then none
      else
        let hash := sha256 (preimage txn true)
        if (txn.txList hash).length ≤ roomOf psize then
          some (.ok ⟨encodeHttp2DataFrame (txn.txList hash), hash⟩)
        else some (.error streamFullError) := by
  have htag := emits_pbEncodeTagForField txListTxs (by simp [txListTxs])
  have hvar : varint (txListTxs.tag * 8 + wireType txListTxs.ltype) = [10] := by
    simp [txListTxs, wireType, varint_of_lt]
  rw [hvar] at htag
  by_cases hroom : roomOf psize < 1
  · have hfail : pbEncodeTagForField txListTxs (pbOstreamFromBuffer (roomOf psize)) =
        .error "stream full" := by
      rw [htag.fromBuffer, if_neg (by simpa using hroom)]
    rw [if_pos hroom, encodeTransaction, encode1Transaction, ← roomOf, hfail]
    rfl
  · have hok : pbEncodeTagForField txListTxs (pbOstreamFromBuffer (roomOf psize)) =
        .ok ⟨false, roomOf psize, [10], 1⟩ := by
      rw [htag.fromBuffer, if_pos (by simp; omega)]
      rfl
    rw [if_neg hroom, encodeTransaction, encode1Transaction, ← roomOf, hok]
    show Option.map _ ((calculateTxHash sha256 txn true).bind _) = _
    rw [calculateTxHash_eq]
    by_cases hpre : (preimage txn true).length ≤ 4096
    · rw [if_pos hpre, if_neg (by omega), Option.bind_some]
      set hash := sha256 (preimage txn true)
      have hl := tx_length_le txn hash
      have ha := h.amount
      have hp := h.payload
      have hsg := h.sign
      have hsub := (emits_txFields h hs hash).submessage (by omega)
      have hlist : txn.txList hash = [10] ++ (varint (Wire.encode (txn.tx hash)).length ++
          Wire.encode (txn.tx hash)) := by
        simp [Txn.txList, lenField, Wire.encode, Wire.Field.text, Wire.Value.wt,
          Wire.Value.payload, varint_of_lt]
      by_cases hfit : (txn.txList hash).length ≤ roomOf psize
      · have hf := hfit
        rw [hlist, List.length_append, List.length_singleton] at hf
        rw [if_pos hfit, hsub.fits ⟨false, roomOf psize, [10], 1⟩ rfl hf, hlist]
        rfl
      · have hf := hfit
        rw [hlist, List.length_append, List.length_singleton] at hf
        rw [if_neg hfit, hsub.full ⟨false, roomOf psize, [10], 1⟩ rfl (Nat.not_lt.mp hroom)
          (Nat.not_le.mp hf)]
        rfl
    · rw [if_neg hpre, if_pos (by omega)]
      rfl

end Libaergo
