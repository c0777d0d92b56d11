import Libaergo.Nanopb.Encode
import Libaergo.Address

/-!
# Building, signing and encoding a transaction (`aergo.c`)

`EncodeTransfer`, `EncodeContractCall` and `EncodeMultiCall` fill a `struct txn`, have it signed and
encode it as a framed `TxList`.  Two hand-written encoders meet here: the protobuf callbacks, which
leave empty fields out, and `calculate_tx_hash`, which copies the raw fields into a 4096-byte buffer
and hashes it.

SHA-256, the ECDSA library and the Ledger are parameters.  A write past the 4096 bytes is undefined
behaviour: the functions return `none` there.
-/

namespace Libaergo

open Lib Nanopb

/-- The parts of `struct aergo_account` a transaction reads and writes. -/
structure Account where
  useLedger : Bool
  privkey : Vector UInt8 32
  pubkey : Address
  nonce : UInt64

/-- `struct txn`.  A `payload` is a null pointer or a C string; `sign` are the `sig_len` bytes in
use. -/
structure Txn where
  nonce : UInt64
  account : Address
  recipient : Address
  amount : Bytes
  payload : Option Bytes
  gasLimit : UInt64
  gasPrice : UInt64
  type : UInt32
  chainIdHash : Hash
  sign : Bytes

def txTypeTransfer : UInt32 := 4
def txTypeCall : UInt32 := 5
def txTypeMulticall : UInt32 := 7

/-- The recipient field is taken as present when its first byte is not zero. -/
def Txn.hasRecipient (txn : Txn) : Prop := getElem txn.recipient 0 Address.pos ≠ 0

instance (txn : Txn) : Decidable txn.hasRecipient := by unfold Txn.hasRecipient; infer_instance

/-! ### The hash -/

/-- `memcpy(ptr, bs, len); ptr += len` in the buffer of `calculate_tx_hash`. -/
def putBytes (buf bs : Bytes) : Option Bytes :=
  if buf.length + bs.length ≤ 4096 then some (buf ++ bs) else none

/-- The same under an `if`. -/
def putIf (c : Prop) [Decidable c] (buf bs : Bytes) : Option Bytes :=
  if c then putBytes buf bs else some buf

/-- The same for a string, if there is one. -/
def putString (buf : Bytes) : Option Bytes → Option Bytes
  | some str => putBytes buf str
  | none => some buf

/-- `encode_bigint`: a single byte for now. -/
def encodeBigint (buf : Bytes) (value : UInt64) : Option Bytes :=
  putBytes buf ((leBytes 8 value.toNat).take 1)

def calculateTxHash (sha256 : Bytes → Hash) (txn : Txn) (includeSignature : Bool) : Option Hash := do
  let buf ← putBytes [] (leBytes 8 txn.nonce.toNat)
  let buf ← putBytes buf txn.account.toList
  let buf ← putIf txn.hasRecipient buf txn.recipient.toList
  let buf ← putBytes buf txn.amount
  let buf ← putString buf txn.payload
  let buf ← putBytes buf (leBytes 8 txn.gasLimit.toNat)
  let buf ← encodeBigint buf txn.gasPrice
  let buf ← putBytes buf (leBytes 4 txn.type.toNat)
  let buf ← putBytes buf txn.chainIdHash.toList
  let buf ← putIf includeSignature buf txn.sign
  return sha256 buf

/-! ### The protobuf callbacks -/

/-- The bytes `encode_varuint64` keeps: big endian without the leading null bytes, the last one
excepted. -/
def varuint64Bytes (value : UInt64) : Bytes :=
  ((beBytes 8 value.toNat).take 7).dropWhile (· = 0) ++ (beBytes 8 value.toNat).drop 7

def encodeVaruint64 (value : UInt64) (field : PbField) : Encoder := fun s => do
  let s ← pbEncodeTagForField field s
  pbEncodeString (varuint64Bytes value) s

def encodeString (str : Option Bytes) (field : PbField) : Encoder := fun s =>
  match str with
  | none => pure s
  | some str => do
    let s ← pbEncodeTagForField field s
    pbEncodeString str s

def encodeBlob (blob : Bytes) (field : PbField) : Encoder := fun s =>
  if blob.length = 0 then pure s
  else do
    let s ← pbEncodeTagForField field s
    pbEncodeString blob s

/-- `TxBody_fields` with the values and callbacks `encode_transaction_body` sets. -/
def txBodyFields (txn : Txn) : List (PbField × FieldData) :=
  [(⟨1, .uvarint⟩, .uvarint txn.nonce.toNat),
   (⟨2, .bytes⟩, .callback (some (encodeBlob txn.account.toList))),
   (⟨3, .bytes⟩, .callback (some (encodeBlob (if txn.hasRecipient then txn.recipient.toList else [])))),
   (⟨4, .bytes⟩, .callback (some (encodeBlob txn.amount))),
   (⟨5, .bytes⟩, .callback (some (encodeString txn.payload))),
   (⟨6, .uvarint⟩, .uvarint txn.gasLimit.toNat),
   (⟨7, .bytes⟩, .callback (some (encodeVaruint64 txn.gasPrice))),
   (⟨8, .uvarint⟩, .uvarint txn.type.toNat),
   (⟨9, .bytes⟩, .callback (some (encodeBlob txn.chainIdHash.toList))),
   (⟨10, .bytes⟩, .callback (some (encodeBlob txn.sign)))]

/-- `encode_transaction_body`: with a signature a tagged submessage, without one (the Ledger path,
which passes no field) the bare message. -/
def encodeTransactionBody (txn : Txn) (field : PbField) : Encoder := fun s =>
  if 0 < txn.sign.length then do
    let s ← pbEncodeTagForField field s
    pbEncodeSubmessage (txBodyFields txn) s
  else pbEncode (txBodyFields txn) s

/-- `Tx_fields` with the callbacks `encode_1_transaction` sets. -/
def txFields (hash : Hash) (txn : Txn) : List (PbField × FieldData) :=
  [(⟨1, .bytes⟩, .callback (some (encodeBlob hash.toList))),
   (⟨2, .bytes⟩, .callback (some (encodeTransactionBody txn)))]

/-- `TxList_fields` -/
def txListTxs : PbField := ⟨1, .submessage⟩

/-- `encode_1_transaction`: also the value it leaves in `txn->hash`. -/
def encode1Transaction (sha256 : Bytes → Hash) (txn : Txn) (field : PbField) (s : OStream) :
    Option (Except String (OStream × Hash)) :=
  match pbEncodeTagForField field s with
  | .error e => some (.error e)
  | .ok s => do
    let hash ← calculateTxHash sha256 txn true
    return (pbEncodeSubmessage (txFields hash txn) s).map fun s => (s, hash)

/-- `encode_http2_data_frame` in front of the content. -/
def encodeHttp2DataFrame (content : Bytes) : Bytes := 0 :: beBytes 4 content.length ++ content

/-- What a successful encoder hands back: the framed message and `txn_hash`. -/
structure Encoded where
  message : Bytes
  txnHash : Hash

/-- `encode_transaction`; `TxList` has the one field `txs`, so encoding it is its callback.
`*psize - 5` is computed in `size_t`. -/
def encodeTransaction (sha256 : Bytes → Hash) (psize : ℕ) (txn : Txn) :
    Option (Except String Encoded) :=
  (encode1Transaction sha256 txn txListTxs (pbOstreamFromBuffer ((psize + (2 ^ 64 - 5)) % 2 ^ 64))).map
    fun
    | .error errmsg => .error ("transaction encoding failed: " ++ errmsg ++ "\n")
    | .ok (stream, hash) => .ok ⟨encodeHttp2DataFrame stream.written, hash⟩

/-! ### Signing -/

/-- What lies outside the repository when a transaction is signed: `secp256k1_ecdsa_sign`,
`secp256k1_ecdsa_signature_serialize_der`, and the Ledger as `ledger_sign_transaction` shows it. -/
structure Devices where
  ecdsaSign : Hash → Vector UInt8 32 → Option Bytes
  serializeDer : Bytes → Option Bytes
  ledgerSign : Bytes → Except String Bytes

inductive SignInput where
  | ecdsa (hash : Hash)
  | ledger (txnData : Bytes)

/-- A run of `sign_transaction`: what was handed over, and the signature or the error text. -/
structure Signing where
  handed : Option SignInput
  result : Except String Bytes

/-- `sizeof(txn_data)` in `sign_transaction` -/
def txnDataSize : ℕ := 64 * 1024

def signTransaction (sha256 : Bytes → Hash) (D : Devices) (account : Account) (txn : Txn) :
    Option Signing :=
  if account.useLedger then
    match encodeTransactionBody txn ⟨0, .bytes⟩ (pbOstreamFromBuffer (txnDataSize - 1)) with
    | .error _ => some ⟨none, .error "failed to encode the transaction"⟩
    | .ok stream =>
      let txnData := UInt8.ofNat txn.type.toNat :: stream.written
      some ⟨some (.ledger txnData), D.ledgerSign txnData⟩
  else do
    let hash ← calculateTxHash sha256 txn false
    match D.ecdsaSign hash account.privkey with
    | none => return ⟨some (.ecdsa hash), .error "failed to sign the transaction"⟩
    | some sig =>
      match D.serializeDer sig with
      | none => return ⟨some (.ecdsa hash), .error "failed to serialize the signature"⟩
      | some der => return ⟨some (.ecdsa hash), .ok der⟩

/-! ### The three encoders -/

/-- A call of one of the three encoders that returned: the account it leaves, what was handed to the
signer, and the message, or the text written to `error` if one was. -/
structure Encoding where
  account : Account
  handed : Option SignInput
  result : Except (Option String) Encoded

/-- The call returned true. -/
def Encoding.ok (e : Encoding) : Bool := e.result.toBool

section Encoders

variable (sha256 : Bytes → Hash) (D : Devices)

/-- The common end of the encoders: `sign_transaction`, then `encode_transaction`. -/
def signAndEncode (psize : ℕ) (account : Account) (txn : Txn) : Option Encoding := do
  let signing ← signTransaction sha256 D account txn
  match signing.result with
  | .error error => return ⟨account, signing.handed, .error (some error)⟩
  | .ok sign =>
    let encoded ← encodeTransaction sha256 psize { txn with sign := sign }
    return ⟨account, signing.handed, encoded.mapError some⟩

variable (stack : ℕ → UInt8) (blockchainIdHash : Hash)

/-- `decode_address` into the zeroed field of the transaction; its result is not looked at. -/
def decodeInto (address : Bytes) : Address :=
  (decodeAddress sha256 stack address).getD (Vector.replicate 33 0)

/-- The transaction that an `EncodeTransfer` with these arguments builds. -/
def transferTxn (account : Account) (recipient amount : Bytes) : Txn where
  nonce := account.nonce
  account := account.pubkey
  recipient := decodeInto sha256 stack recipient
  amount := amount
  payload := none
  gasLimit := 0
  gasPrice := 0
  type := txTypeTransfer
  chainIdHash := blockchainIdHash
  sign := []

/-- The transaction that an `EncodeContractCall` with these arguments builds. -/
def contractCallTxn (account : Account) (contractAddress callInfo : Bytes) : Txn where
  nonce := account.nonce
  account := account.pubkey
  recipient := decodeInto sha256 stack contractAddress
  amount := [0]
  payload := some callInfo
  gasLimit := 0
  gasPrice := 0
  type := txTypeCall
  chainIdHash := blockchainIdHash
  sign := []

/-- The transaction that an `EncodeMultiCall` with these arguments builds. -/
def multiCallTxn (account : Account) (payload : Bytes) : Txn where
  nonce := account.nonce
  account := account.pubkey
  recipient := Vector.replicate 33 0
  amount := [0]
  payload := some payload
  gasLimit := 0
  gasPrice := 0
  type := txTypeMulticall
  chainIdHash := blockchainIdHash
  sign := []

/-- `account->nonce++` -/
def Account.bump (account : Account) : Account := { account with nonce := account.nonce + 1 }

/-- `EncodeTransfer`; an `amount` is a null pointer or its bytes. -/
def encodeTransfer (psize : ℕ) (account : Account) (recipient : Bytes) (amount : Option Bytes) :
    Option Encoding :=
  match amount with
  | none => some ⟨account, none, .error none⟩
  | some amount =>
    if amount.length < 1 then some ⟨account, none, .error none⟩
    else
      signAndEncode sha256 D psize account.bump
        (transferTxn sha256 stack blockchainIdHash account.bump recipient amount)

def encodeContractCall (psize : ℕ) (account : Account) (contractAddress callInfo : Bytes) :
    Option Encoding :=
  signAndEncode sha256 D psize account.bump
    (contractCallTxn sha256 stack blockchainIdHash account.bump contractAddress callInfo)

def encodeMultiCall (psize : ℕ) (account : Account) (payload : Bytes) : Option Encoding :=
  signAndEncode sha256 D psize account.bump (multiCallTxn blockchainIdHash account.bump payload)

end Encoders

end Libaergo
