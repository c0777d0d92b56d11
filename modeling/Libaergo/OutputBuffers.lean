import Libaergo.Payloads

/-!
# The output buffers of the calls (`aergo.c`)

`aergo_multicall` and `aergo_call_smart_contract` allocate 300 bytes more than the texts of the caller have for
the framed `TxList`, and 32 more for the JSON object.  The lengths add up over three nested messages, each with
the varint of its length in front: 262 bytes are enough around a payload of less than 2^31 bytes, and 19 around
the texts in the object (`hasRoom`).  What may be too small is the buffer of 64 KiB in which `sign_transaction`
shows a transaction to the Ledger.
-/

namespace Libaergo

open Lib Nanopb

/-! ### The content -/

/-- `encode_1_transaction` when the hash is known. -/
def encodeTx (hash : Hash) (txn : Txn) : Encoder := fun s => do
  let s ← pbEncodeTagForField txListTxs s
  pbEncodeSubmessage (txFields hash txn) s

lemma encode1Transaction_eq {sha256 : Bytes → Hash} {txn : Txn} {hash : Hash}
    (h : calculateTxHash sha256 txn true = some hash) (s : OStream) :
    encode1Transaction sha256 txn txListTxs s = some ((encodeTx hash txn s).map fun s => (s, hash)) := by
  unfold encode1Transaction encodeTx
  cases htag : pbEncodeTagForField txListTxs s with
  | error e => rfl
  | ok s =>
    simp only [h]
    rfl

section Lengths

variable {txn : Txn} {k n : ℕ} {bs : Bytes}

/-- A field with a small number costs a byte and the varint of its length. -/
lemma lenField_length (hk : k < 15) (bs : Bytes) :
    (Wire.encode (lenField k bs)).length = 1 + (varint bs.length).length + bs.length := by
  have htag : (varint (k * 8 + 2)).length = 1 := by rw [varint_of_lt (by omega)]; rfl
  simp only [lenField, Wire.encode, List.flatMap_cons, List.flatMap_nil, List.append_nil, Wire.Field.text,
    Wire.Value.wt, Wire.Value.payload, List.length_append, htag]
  omega

/-- Five bytes are enough for the length of what fits in memory. -/
lemma lenField_length_le (hk : k < 15) (bs : Bytes) (h : bs.length < 2 ^ 35) :
    (Wire.encode (lenField k bs)).length ≤ 6 + bs.length := by
  have hvarint := varint_length_le_of_lt (k := 4) (n := bs.length) (by omega)
  rw [lenField_length hk]
  omega

lemma lenField_length_short (hk : k < 15) (h : bs.length < 128) :
    (Wire.encode (lenField k bs)).length = 2 + bs.length := by
  rw [lenField_length hk, varint_of_lt h, List.length_singleton]

lemma blobField_length_short (hk : k < 15) (bs : Bytes) (h : bs.length < 128) :
    (Wire.encode (blobField k bs)).length ≤ 2 + bs.length := by
  unfold blobField
  split
  · exact Nat.zero_le _
  · exact (lenField_length_short hk h).le

lemma numField_length_le (hk : k < 15) (n : ℕ) : (Wire.encode (numField k n)).length ≤ 11 := by
  have hvarint := varint_length_le n
  have htag : (varint (k * 8)).length = 1 := by rw [varint_of_lt (by omega)]; rfl
  unfold numField
  split
  · exact Nat.zero_le _
  · simp only [Wire.encode, List.flatMap_cons, List.flatMap_nil, List.append_nil, Wire.Field.text,
      Wire.Value.wt, Wire.Value.payload, List.length_append, Nat.add_zero, htag]
    omega

/-- What the transactions of the two calls have in common. -/
structure Txn.IsCall (txn : Txn) : Prop where
  amount : txn.amount.length = 1
  gasLimit : txn.gasLimit = 0
  gasPrice : txn.gasPrice = 0
  type : txn.type < 128
  payload : (txn.payload.getD []).length < 2 ^ 32
  sign : txn.sign.length ≤ 80

lemma Txn.IsCall.sized (h : txn.IsCall) : txn.Sized := by
  have hamount := h.amount
  have hpayload := h.payload
  have hsign := h.sign
  exact ⟨by omega, by omega, by omega⟩

/-- The fields in front of the signature have 129 bytes at most, and the payload. -/
lemma Txn.IsCall.unsignedBody_length_le (h : txn.IsCall) :
    (Wire.encode txn.unsignedBody).length ≤ 129 + (txn.payload.getD []).length := by
  have hnonce := numField_length_le (k := 1) (by decide) txn.nonce.toNat
  have haccount := blobField_length_short (by decide : 2 < 15) txn.account.toList (by simp)
  have hrec := recipientBytes_length_le txn
  have hrecipient := blobField_length_short (by decide : 3 < 15) txn.recipientBytes (by omega)
  have hamount := blobField_length_short (by decide : 4 < 15) txn.amount (by rw [h.amount]; decide)
  have hpayload : (Wire.encode (stringField 5 txn.payload)).length ≤ 6 + (txn.payload.getD []).length := by
    have hlen := h.payload
    cases hp : txn.payload with
    | none => exact Nat.zero_le _
    | some bs =>
      rw [hp, Option.getD_some] at hlen
      exact lenField_length_le (by decide) bs (by omega)
  have hlimit : (Wire.encode (numField 6 txn.gasLimit.toNat)).length = 0 := by rw [h.gasLimit]; rfl
  have hprice : (Wire.encode (lenField 7 (varuint64Bytes txn.gasPrice))).length = 3 := by rw [h.gasPrice]; decide
  have htype : (Wire.encode (numField 8 txn.type.toNat)).length ≤ 2 := by
    have hlt : txn.type.toNat < 128 := h.type
    have htag : (varint 64).length = 1 := by decide
    unfold numField
    split
    · exact Nat.zero_le _
    · simp [Wire.encode, Wire.Field.text, Wire.Value.wt, Wire.Value.payload, varint_of_lt hlt, htag]
  have hchain := blobField_length_short (by decide : 9 < 15) txn.chainIdHash.toList (by simp)
  rw [Vector.length_toList] at haccount hchain
  rw [h.amount] at hamount
  simp only [Txn.unsignedBody, Wire.encode_append, List.length_append]
  omega

lemma Txn.IsCall.body_length_le (h : txn.IsCall) :
    (Wire.encode txn.body).length ≤ 211 + (txn.payload.getD []).length := by
  have hunsigned := h.unsignedBody_length_le
  have hlen := h.sign
  have hsign := blobField_length_short (by decide : 10 < 15) txn.sign (by omega)
  rw [Txn.body, Wire.encode_append, List.length_append]
  omega

/-- **The content of the message has 257 bytes at most, and the payload**, with a signature or without. -/
lemma Txn.IsCall.emits_encodeTx (h : txn.IsCall) (hash : Hash) :
    ∃ content, Emits (encodeTx hash txn) content ∧ content.length ≤ 257 + (txn.payload.getD []).length := by
  have hpayload := h.payload
  have hhash : (Wire.encode (lenField 1 hash.toList)).length = 34 := by
    rw [lenField_length_short (by decide) (by simp), Vector.length_toList]
  have htag := emits_pbEncodeTagForField txListTxs (by decide)
  have hone : (varint (txListTxs.tag * 8 + wireType txListTxs.ltype)).length = 1 := by decide
  have hwhole : ∀ fields : Bytes, Emits (pbEncode (txFields hash txn)) fields →
      fields.length ≤ 251 + (txn.payload.getD []).length →
      ∃ content, Emits (encodeTx hash txn) content ∧ content.length ≤ 257 + (txn.payload.getD []).length := by
    intro fields hfields hlen
    have hvarint := varint_length_le_of_lt (k := 4) (n := fields.length) (by omega)
    refine ⟨_, htag.bind (hfields.submessage (by omega)), ?_⟩
    rw [List.length_append, List.length_append, hone]
    omega
  rcases Nat.eq_zero_or_pos txn.sign.length with hs | hs
  · have hfirst : Emits (encodeField ⟨1, .bytes⟩ (.callback (some (encodeBlob hash.toList)))) _ :=
      emits_blob (by decide) (by simp)
    have hbare := emits_bareBody h.sized (List.length_eq_zero_iff.mp hs) ⟨2, .bytes⟩
    have hlen := h.unsignedBody_length_le
    have hblob : blobField 1 hash.toList = lenField 1 hash.toList := by simp [blobField]
    refine hwhole _ (hfirst.cons ((Emits.callback hbare).cons pbEncode_nil)) ?_
    simp only [hblob, List.length_append, List.length_nil, hhash]
    omega
  · have hlen := h.body_length_le
    have hbody := lenField_length_le (by decide : 2 < 15) (Wire.encode txn.body) (by omega)
    refine hwhole _ (emits_txFields h.sized hs hash) ?_
    rw [Txn.tx, Wire.encode_append, List.length_append, hhash]
    omega

end Lengths

/-! ### The calls -/

def EntryPoint.textLength : EntryPoint → ℕ
  | .transferBignum _ _ => 0
  | .multicall payload => payload.length
  | .callSmartContract _ function args => function.length + (args.getD []).length

structure Devices.Small (D : Devices) : Prop where
  serializeDer : ∀ {sig der}, D.serializeDer sig = some der → der.length ≤ 80
  ledgerSign : ∀ {data sig}, D.ledgerSign data = .ok sig → sig.length ≤ 80

/-- **The buffers of a call are large enough.** -/
structure EntryPoint.HasRoom (sha256 : Bytes → Hash) (stack : ℕ → UInt8) (t : EntryPoint) : Prop where
  /-- `snprintf` writes the whole object, with its null byte. -/
  json : ∀ contractAddress function args, t = .callSmartContract contractAddress function args →
    Arguments.callInfo function (args.getD []) = callInfo function args ∧
      (callInfo function args).length + 1 ≤ function.length + (args.getD []).length + 32
  /-- The encoder is not stopped, whatever the hash, and the framed message is in the buffer. -/
  message : ∀ (chain : Hash) (account : Account) (sign : Bytes) (hash : Hash), sign.length ≤ 80 →
    ∃ content, encodeTx hash { t.encode.txn sha256 stack chain account with sign := sign }
        (pbOstreamFromBuffer (roomOf t.psize)) = .ok ⟨false, roomOf t.psize, content, content.length⟩ ∧
      (encodeHttp2DataFrame content).length ≤ t.psize
  /-- A call fails only because it is not signed. -/
  run : ∀ (D : Devices) (chain : Hash) (account : Account) (e : Encoding), D.Small →
    t.encode.run sha256 D stack chain t.psize account = some e →
    (∃ encoded, e.result = .ok encoded ∧ encoded.message.length ≤ t.psize) ∨
      ∃ error, e.result = .error (some error) ∧
        signTransaction sha256 D account.bump (t.encode.txn sha256 stack chain account.bump) =
          some ⟨e.handed, .error error⟩
  /-- What the Ledger is shown fills its buffer if the body has more than 65535 bytes. -/
  scratch : ∀ (chain : Hash) (account : Account),
    encodeTransactionBody (t.encode.txn sha256 stack chain account) ⟨0, .bytes⟩
        (pbOstreamFromBuffer (txnDataSize - 1)) = .error "stream full" ↔
      txnDataSize - 1 < (Wire.encode (t.encode.txn sha256 stack chain account).unsignedBody).length
  /-- The call fails then, and nothing is handed to the device. -/
  ledger : ∀ (D : Devices) (chain : Hash) (account : Account), account.useLedger = true →
    txnDataSize - 1 < (Wire.encode (t.encode.txn sha256 stack chain account.bump).unsignedBody).length →
    t.encode.run sha256 D stack chain t.psize account =
      some ⟨account.bump, none, .error (some "failed to encode the transaction")⟩

section Calls

variable {sha256 : Bytes → Hash} {stack : ℕ → UInt8} {t : EntryPoint} {D : Devices} {account : Account}
  {txn : Txn}

lemma callInfo_length_le (function : Bytes) (args : Option Bytes) :
    (callInfo function args).length ≤ function.length + (args.getD []).length + 19 := by
  unfold callInfo
  split
  · simp only [List.length_append, List.length_cons, List.length_nil]
    omega
  · next hargs =>
    simp only [List.length_append, List.length_cons, List.length_nil]
    omega

lemma EntryPoint.payload_length_le (sha256 : Bytes → Hash) (stack : ℕ → UInt8) (ht : t.service = .contractCall)
    (chain : Hash) (account : Account) :
    ((t.encode.txn sha256 stack chain account).payload.getD []).length ≤ t.textLength + 19 ∧
      t.psize = t.textLength + 300 := by
  cases t with
  | transferBignum toAccount amount => cases ht
  | multicall payload => exact ⟨Nat.le_add_right _ _, rfl⟩
  | callSmartContract contractAddress function args => exact ⟨callInfo_length_le function args, rfl⟩

lemma EntryPoint.isCall (sha256 : Bytes → Hash) (stack : ℕ → UInt8) (ht : t.service = .contractCall)
    (hlen : t.textLength < 2 ^ 31 - 300) (chain : Hash) (account : Account) {sign : Bytes}
    (hsign : sign.length ≤ 80) :
    ({ t.encode.txn sha256 stack chain account with sign := sign } : Txn).IsCall := by
  obtain ⟨hpayload, -⟩ := EntryPoint.payload_length_le sha256 stack ht chain account
  have hlt : ((t.encode.txn sha256 stack chain account).payload.getD []).length < 2 ^ 32 := by omega
  cases t with
  | transferBignum toAccount amount => cases ht
  | multicall payload => exact ⟨rfl, rfl, rfl, (by decide : txTypeMulticall < 128), hlt, hsign⟩
  | callSmartContract contractAddress function args =>
    exact ⟨rfl, rfl, rfl, (by decide : txTypeCall < 128), hlt, hsign⟩

lemma EntryPoint.encodeTx_ok (sha256 : Bytes → Hash) (stack : ℕ → UInt8) (ht : t.service = .contractCall)
    (hlen : t.textLength < 2 ^ 31 - 300) (chain : Hash) (account : Account) {sign : Bytes}
    (hsign : sign.length ≤ 80) (hash : Hash) :
    ∃ content, encodeTx hash { t.encode.txn sha256 stack chain account with sign := sign }
        (pbOstreamFromBuffer (roomOf t.psize)) = .ok ⟨false, roomOf t.psize, content, content.length⟩ ∧
      (encodeHttp2DataFrame content).length ≤ t.psize := by
  obtain ⟨content, hemits, hle⟩ := (isCall sha256 stack ht hlen chain account hsign).emits_encodeTx hash
  obtain ⟨hpayload, hpsize⟩ := EntryPoint.payload_length_le sha256 stack ht chain account
  have hroom : roomOf t.psize = t.psize - 5 := roomOf_eq (by omega) (by omega)
  dsimp only at hle
  refine ⟨content, ?_, ?_⟩
  · rw [hemits.fromBuffer, if_pos (by omega)]
  · simp only [encodeHttp2DataFrame, List.length_append, List.length_cons, beBytes_length]
    omega

lemma encodeTransaction_eq_ok {psize : ℕ} {content : Bytes} {hash : Hash} {room : ℕ}
    (hhash : calculateTxHash sha256 txn true = some hash)
    (h : encodeTx hash txn (pbOstreamFromBuffer (roomOf psize)) = .ok ⟨false, room, content, content.length⟩) :
    encodeTransaction sha256 psize txn = some (.ok ⟨encodeHttp2DataFrame content, hash⟩) := by
  unfold encodeTransaction
  rw [encode1Transaction_eq hhash, ← roomOf, h]
  rfl

lemma encodeTransaction_hash {psize : ℕ} {encoded : Except String Encoded}
    (h : encodeTransaction sha256 psize txn = some encoded) (hroom : 1 ≤ roomOf psize) :
    ∃ hash, calculateTxHash sha256 txn true = some hash := by
  have hone : (varint (txListTxs.tag * 8 + wireType txListTxs.ltype)).length = 1 := by decide
  have hs := (emits_pbEncodeTagForField txListTxs (by decide)).fromBuffer (roomOf psize)
  rw [if_pos (by omega)] at hs
  cases hhash : calculateTxHash sha256 txn true with
  | some hash => exact ⟨hash, rfl⟩
  | none =>
    rw [encodeTransaction, encode1Transaction, ← roomOf, hs, hhash] at h
    cases h

lemma signTransaction_small (hD : D.Small) {handed : Option SignInput} {sign : Bytes}
    (h : signTransaction sha256 D account txn = some ⟨handed, .ok sign⟩) : sign.length ≤ 80 := by
  rcases signTransaction_signer h with ⟨data, hsign⟩ | ⟨sig, hsign⟩
  · exact hD.ledgerSign hsign
  · exact hD.serializeDer hsign

lemma EntryPoint.not_refused (ht : t.service = .contractCall) : ¬ t.encode.Refused := by
  cases t with
  | transferBignum toAccount amount => cases ht
  | multicall payload => exact id
  | callSmartContract contractAddress function args => exact id

lemma EntryPoint.scratch_iff (ht : t.service = .contractCall) (hlen : t.textLength < 2 ^ 31 - 300) (chain : Hash)
    (account : Account) (room : ℕ) :
    encodeTransactionBody (t.encode.txn sha256 stack chain account) ⟨0, .bytes⟩ (pbOstreamFromBuffer room) =
        .error "stream full" ↔
      room < (Wire.encode (t.encode.txn sha256 stack chain account).unsignedBody).length := by
  have hsign := EncodeCall.txn_sign sha256 stack chain account t.encode
  have hempty : ([] : Bytes).length ≤ 80 := Nat.zero_le _
  have hcall := isCall sha256 stack ht hlen chain account hempty
  have hsame : ({ t.encode.txn sha256 stack chain account with sign := [] } : Txn) =
      t.encode.txn sha256 stack chain account := by rw [← hsign]
  rw [hsame] at hcall
  rw [(emits_bareBody hcall.sized hsign ⟨0, .bytes⟩).fromBuffer]
  split
  · next hle => simp only [reduceCtorEq, false_iff, not_lt, hle]
  · next hgt => simpa using hgt

lemma EntryPoint.run_cases (ht : t.service = .contractCall) (hlen : t.textLength < 2 ^ 31 - 300) (hD : D.Small)
    {chain : Hash} {e : Encoding} (h : t.encode.run sha256 D stack chain t.psize account = some e) :
    (∃ encoded, e.result = .ok encoded ∧ encoded.message.length ≤ t.psize) ∨
      ∃ error, e.result = .error (some error) ∧
        signTransaction sha256 D account.bump (t.encode.txn sha256 stack chain account.bump) =
          some ⟨e.handed, .error error⟩ := by
  rw [EncodeCall.run_eq, if_neg (not_refused ht)] at h
  obtain ⟨⟨handed, result⟩, hsign, hrest⟩ := Option.bind_eq_some_iff.mp h
  cases result with
  | error error =>
    obtain rfl := Option.some.inj hrest
    exact .inr ⟨error, rfl, hsign⟩
  | ok sign =>
    obtain ⟨encoded, hencoded, he⟩ := Option.bind_eq_some_iff.mp hrest
    obtain rfl := Option.some.inj he
    obtain ⟨-, hpsize⟩ := EntryPoint.payload_length_le sha256 stack ht chain account
    have hroom : roomOf t.psize = t.psize - 5 := roomOf_eq (by omega) (by omega)
    obtain ⟨hash, hhash⟩ := encodeTransaction_hash hencoded (by omega)
    obtain ⟨content, hok, hle⟩ := encodeTx_ok sha256 stack ht hlen chain account.bump
      (signTransaction_small hD hsign) hash
    have hsame := hencoded.symm.trans (encodeTransaction_eq_ok hhash hok)
    obtain rfl := Option.some.inj hsame
    exact .inl ⟨_, rfl, hle⟩

lemma EntryPoint.run_ledger (ht : t.service = .contractCall) (hlen : t.textLength < 2 ^ 31 - 300) (D : Devices)
    (chain : Hash) (psize : ℕ) (hledger : account.useLedger = true)
    (hbody : txnDataSize - 1 < (Wire.encode (t.encode.txn sha256 stack chain account.bump).unsignedBody).length) :
    t.encode.run sha256 D stack chain psize account =
      some ⟨account.bump, none, .error (some "failed to encode the transaction")⟩ := by
  have huse : account.bump.useLedger = true := hledger
  have hfull := (scratch_iff ht hlen chain account.bump _).mpr hbody
  rw [EncodeCall.run_eq, if_neg (not_refused ht), signAndEncode, signTransaction, if_pos huse, hfull]
  rfl

/-- **The buffers are large enough for every text**, the one for the Ledger excepted, which holds 64 KiB. -/
theorem EntryPoint.hasRoom (sha256 : Bytes → Hash) (stack : ℕ → UInt8) (t : EntryPoint)
    (ht : t.service = .contractCall) (hlen : t.textLength < 2 ^ 31 - 300) : t.HasRoom sha256 stack where
  json := by
    rintro contractAddress function args -
    have hle := callInfo_length_le function args
    exact ⟨(Arguments.callInfo_eq function args).symm, by omega⟩
  message := fun chain account _ hash hsign => encodeTx_ok sha256 stack ht hlen chain account hsign hash
  run := fun _ _ _ _ hD hrun => run_cases ht hlen hD hrun
  scratch := fun chain account => scratch_iff ht hlen chain account _
  ledger := fun D chain _ hledger hbody => run_ledger ht hlen D chain _ hledger hbody

/-- A call with the arguments `[]`. -/
theorem EntryPoint.hasRoom_empty :
    (EntryPoint.callSmartContract sampleAddress [0x66] (some [0x5b, 0x5d])).HasRoom Libaergo.sha256 zeroStack :=
  EntryPoint.hasRoom _ _ _ rfl (by decide)

lemma payload_length_le_unsignedBody (txn : Txn) :
    (txn.payload.getD []).length ≤ (Wire.encode txn.unsignedBody).length := by
  have hpayload : (txn.payload.getD []).length ≤ (Wire.encode (stringField 5 txn.payload)).length := by
    cases txn.payload with
    | none => exact Nat.zero_le _
    | some bs =>
      rw [Option.getD_some, stringField, lenField_length (by decide)]
      omega
  simp only [Txn.unsignedBody, Wire.encode_append, List.length_append]
  omega

def blankMulticall : EntryPoint := .multicall (List.replicate 70000 0x20)

/-- 70000 blanks are too many for a Ledger. -/
theorem blankMulticall_streamFull :
    blankMulticall.textLength < 2 ^ 31 - 300 ∧
      encodeTransactionBody (blankMulticall.encode.txn Libaergo.sha256 zeroStack sampleChain
        (sampleAccount true).bump) ⟨0, .bytes⟩ (pbOstreamFromBuffer (txnDataSize - 1)) = .error "stream full" ∧
      blankMulticall.encode.run Libaergo.sha256 ledgerDevice zeroStack sampleChain blankMulticall.psize
        (sampleAccount true) =
          some ⟨(sampleAccount true).bump, none, .error (some "failed to encode the transaction")⟩ := by
  have htext : blankMulticall.textLength = 70000 := List.length_replicate ..
  have hlen : blankMulticall.textLength < 2 ^ 31 - 300 := by omega
  have hpayload := payload_length_le_unsignedBody (blankMulticall.encode.txn Libaergo.sha256 zeroStack sampleChain
    (sampleAccount true).bump)
  have hbody : txnDataSize - 1 < (Wire.encode (blankMulticall.encode.txn Libaergo.sha256 zeroStack sampleChain
      (sampleAccount true).bump).unsignedBody).length :=
    lt_of_lt_of_le (by rw [txnDataSize]; omega) (htext.symm.le.trans hpayload)
  exact ⟨hlen, (EntryPoint.scratch_iff rfl hlen _ _ _).mpr hbody,
    EntryPoint.run_ledger rfl hlen _ _ _ rfl hbody⟩

end Calls

end Libaergo
