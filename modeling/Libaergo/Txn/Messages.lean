import Libaergo.Txn.Text

/-!
# What a reader of the transaction sees

`TxList`, `Tx` and `TxBody` as a standard protobuf reader takes them, with the proto3 defaults for
absent fields, and the concatenation of the fields of a `TxBody` that its hashes are taken over.
The text of `encode_transaction` reads back as one `Tx` whose body has the fields of the `struct txn`
(`decodeTxList_txList`, `decodeTxBody_body`).
-/

namespace Libaergo

open Lib

structure TxBody where
  nonce : ℕ
  account : Bytes
  recipient : Bytes
  amount : Bytes
  payload : Bytes
  gasLimit : ℕ
  gasPrice : Bytes
  type : ℕ
  chainIdHash : Bytes
  sign : Bytes

/-- `Tx`; the body is declared as bytes. -/
structure Tx where
  hash : Bytes
  body : Bytes

/-- The `TxBody` of a list of fields. -/
def TxBody.ofFields (fs : List Wire.Field) : TxBody where
  nonce := Wire.numOf 1 fs
  account := Wire.bytesOf 2 fs
  recipient := Wire.bytesOf 3 fs
  amount := Wire.bytesOf 4 fs
  payload := Wire.bytesOf 5 fs
  gasLimit := Wire.numOf 6 fs
  gasPrice := Wire.bytesOf 7 fs
  type := Wire.numOf 8 fs % 2 ^ 32
  chainIdHash := Wire.bytesOf 9 fs
  sign := Wire.bytesOf 10 fs

def decodeTxBody (bs : Bytes) : Option TxBody := (Wire.decode bs).map TxBody.ofFields

def decodeTx (bs : Bytes) : Option Tx :=
  (Wire.decode bs).map fun fs => ⟨Wire.bytesOf 1 fs, Wire.bytesOf 2 fs⟩

def decodeTxList (bs : Bytes) : Option (List Tx) :=
  (Wire.decode bs).bind fun fs => (Wire.allBytes 1 fs).mapM decodeTx

/-- The concatenation of the fields: nonce, account, recipient, amount, payload, gas limit, gas price,
type and chain id hash. -/
def TxBody.unsignedText (b : TxBody) : Bytes :=
  leBytes 8 b.nonce ++ b.account ++ b.recipient ++ b.amount ++ b.payload ++ leBytes 8 b.gasLimit ++
    b.gasPrice ++ leBytes 4 b.type ++ b.chainIdHash

def TxBody.text (b : TxBody) : Bytes := b.unsignedText ++ b.sign

/-! ### Reading single fields -/

lemma updNum_numField (k d j n : ℕ) :
    (numField j n).foldl (Wire.Field.updNum k) d = if j = k ∧ n ≠ 0 then n else d := by
  unfold numField
  by_cases hn : n = 0
  · simp [hn]
  · simp [hn, Wire.Field.updNum]

lemma updNum_lenField (k d j : ℕ) (bs : Bytes) :
    (lenField j bs).foldl (Wire.Field.updNum k) d = d := rfl

lemma updNum_blobField (k d j : ℕ) (bs : Bytes) :
    (blobField j bs).foldl (Wire.Field.updNum k) d = d := by
  unfold blobField
  split <;> rfl

lemma updNum_stringField (k d j : ℕ) (str : Option Bytes) :
    (stringField j str).foldl (Wire.Field.updNum k) d = d := by
  cases str <;> rfl

lemma updBytes_numField (k j n : ℕ) (d : Bytes) :
    (numField j n).foldl (Wire.Field.updBytes k) d = d := by
  unfold numField
  split <;> rfl

lemma updBytes_lenField (k j : ℕ) (d bs : Bytes) :
    (lenField j bs).foldl (Wire.Field.updBytes k) d = if j = k then bs else d := rfl

lemma updBytes_blobField (k j : ℕ) (d bs : Bytes) :
    (blobField j bs).foldl (Wire.Field.updBytes k) d =
      if j = k ∧ bs.length ≠ 0 then bs else d := by
  unfold blobField
  by_cases hn : bs.length = 0
  · simp [hn]
  · simp only [if_neg hn, updBytes_lenField]
    simp [hn]

lemma updBytes_stringField (k j : ℕ) (d : Bytes) (str : Option Bytes) :
    (stringField j str).foldl (Wire.Field.updBytes k) d =
      if j = k then str.getD d else d := by
  cases str with
  | none => simp [stringField]
  | some bs => simp [stringField, updBytes_lenField]

/-! ### Reading the messages back -/

/-- What a reader makes of the fields of a transaction. -/
def Txn.toBody (txn : Txn) : TxBody where
  nonce := txn.nonce.toNat
  account := txn.account.toList
  recipient := txn.recipientBytes
  amount := txn.amount
  payload := txn.payload.getD []
  gasLimit := txn.gasLimit.toNat
  gasPrice := varuint64Bytes txn.gasPrice
  type := txn.type.toNat
  chainIdHash := txn.chainIdHash.toList
  sign := txn.sign

lemma ok_numField {k n : ℕ} (h0 : 0 < k) (h : k < 2 ^ 29) (hn : n < 2 ^ 64) :
    ∀ f ∈ numField k n, f.Ok := by
  unfold numField
  split
  · simp
  · simp only [List.mem_singleton, forall_eq]
    exact ⟨h0, h, hn⟩

lemma ok_lenField {k : ℕ} {bs : Bytes} (h0 : 0 < k) (h : k < 2 ^ 29) (hl : bs.length < 2 ^ 64) :
    ∀ f ∈ lenField k bs, f.Ok := by
  simp only [lenField, List.mem_singleton, forall_eq]
  exact ⟨h0, h, hl⟩

lemma ok_blobField {k : ℕ} {bs : Bytes} (h0 : 0 < k) (h : k < 2 ^ 29) (hl : bs.length < 2 ^ 64) :
    ∀ f ∈ blobField k bs, f.Ok := by
  unfold blobField
  split
  · simp
  · exact ok_lenField h0 h hl

lemma ok_stringField {k : ℕ} {str : Option Bytes} (h0 : 0 < k) (h : k < 2 ^ 29)
    (hl : (str.getD []).length < 2 ^ 64) : ∀ f ∈ stringField k str, f.Ok := by
  cases str with
  | none => simp [stringField]
  | some bs => exact ok_lenField h0 h hl

lemma ok_append {fs gs : List Wire.Field} (hf : ∀ f ∈ fs, f.Ok) (hg : ∀ f ∈ gs, f.Ok) :
    ∀ f ∈ fs ++ gs, f.Ok := by
  intro f hm
  rcases List.mem_append.mp hm with h | h
  · exact hf f h
  · exact hg f h

lemma ok_body {txn : Txn} (h : txn.Sized) : ∀ f ∈ txn.body, f.Ok := by
  have hn := txn.nonce.toNat_lt
  have hg := txn.gasLimit.toNat_lt
  have ht := txn.type.toNat_lt
  have hr := recipientBytes_length_le txn
  have hv := varuint64Bytes_length_le txn.gasPrice
  have ha := h.amount
  have hp := h.payload
  have hs := h.sign
  refine ok_append ?_ (ok_blobField (by omega) (by omega) (by omega))
  refine ok_append (ok_numField (by omega) (by omega) (by omega)) ?_
  refine ok_append (ok_blobField (by omega) (by omega) (by simp)) ?_
  refine ok_append (ok_blobField (by omega) (by omega) (by omega)) ?_
  refine ok_append (ok_blobField (by omega) (by omega) (by omega)) ?_
  refine ok_append (ok_stringField (by omega) (by omega) (by omega)) ?_
  refine ok_append (ok_numField (by omega) (by omega) (by omega)) ?_
  refine ok_append (ok_lenField (by omega) (by omega) (by omega)) ?_
  exact ok_append (ok_numField (by omega) (by omega) (by omega))
    (ok_blobField (by omega) (by omega) (by simp))

/-- **The body of the message reads back** as the fields of the transaction. -/
theorem decodeTxBody_body {txn : Txn} (h : txn.Sized) :
    decodeTxBody (Wire.encode txn.body) = some txn.toBody := by
  have ht := txn.type.toNat_lt
  rw [decodeTxBody, Wire.decode_encode (ok_body h), Option.map_some]
  congr 1
  simp only [TxBody.ofFields, Txn.toBody, Txn.body, Txn.unsignedBody, Wire.numOf, Wire.bytesOf,
    List.foldl_append, updNum_numField, updNum_lenField, updNum_blobField, updNum_stringField,
    updBytes_numField, updBytes_lenField, updBytes_blobField, updBytes_stringField]
  simp only [TxBody.mk.injEq]
  simp
  refine ⟨Eq.symm, Eq.symm, ?_⟩
  split <;> omega

lemma sized_tx {txn : Txn} (h : txn.Sized) (hash : Hash) :
    (Wire.encode (txn.tx hash)).length < 2 ^ 64 := by
  have hl := tx_length_le txn hash
  have ha := h.amount
  have hp := h.payload
  have hs := h.sign
  omega

lemma decodeTx_tx {txn : Txn} (h : txn.Sized) (hash : Hash) :
    decodeTx (Wire.encode (txn.tx hash)) = some ⟨hash.toList, Wire.encode txn.body⟩ := by
  have hl := body_length_le txn
  have ha := h.amount
  have hp := h.payload
  have hs := h.sign
  have hok : ∀ f ∈ txn.tx hash, f.Ok :=
    ok_append (ok_lenField (by omega) (by omega) (by simp))
      (ok_lenField (by omega) (by omega) (by omega))
  rw [decodeTx, Wire.decode_encode hok, Option.map_some]
  simp [Txn.tx, Wire.bytesOf, updBytes_lenField]

/-- **The content of the message reads back** as exactly one `Tx`: the hash and the body. -/
theorem decodeTxList_txList {txn : Txn} (h : txn.Sized) (hash : Hash) :
    decodeTxList (txn.txList hash) = some [⟨hash.toList, Wire.encode txn.body⟩] := by
  have hok : ∀ f ∈ lenField 1 (Wire.encode (txn.tx hash)), f.Ok :=
    ok_lenField (by omega) (by omega) (sized_tx h hash)
  rw [decodeTxList, Txn.txList, Wire.decode_encode hok, Option.bind_some]
  simp [lenField, Wire.allBytes, decodeTx_tx h hash]

/-- **The two encoders agree**: while the gas price is the single byte that `encode_bigint` copies,
the text that is hashed is that of the fields a reader sees. -/
theorem text_toBody {txn : Txn} (hgas : txn.gasPrice = 0) :
    txn.toBody.unsignedText = preimage txn false ∧ txn.toBody.text = preimage txn true := by
  have hg : varuint64Bytes 0 = (leBytes 8 (0 : UInt64).toNat).take 1 := by decide
  simp [TxBody.text, TxBody.unsignedText, Txn.toBody, preimage, hgas, hg]

end Libaergo
