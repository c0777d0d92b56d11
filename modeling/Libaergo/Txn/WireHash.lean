import Libaergo.Txn.Calls

/-!
# The message and the hashes it carries

Whatever an encoder sends is a framed `TxList` of one `Tx`, and the hash in it is the SHA-256 of the
fields a reader finds in the body (`EncodeCall.wire_hash`).  On the software-key path the ECDSA signer
was given the hash of the same fields without the signature; on the Ledger path the device was shown
the body field by field as it is sent, less the signature (`ledger_signs_what_is_sent`).
-/

namespace Libaergo

open Lib

/-! ### The message -/

section Message

variable {sha256 : Bytes → Hash} {D : Devices}

variable {stack : ℕ → UInt8} {blockchainIdHash : Hash} {psize : ℕ} {account : Account}

/-- **The wire format and the hashes agree.**  A call that returned true sent five bytes of header, the
last four the exact length in big endian, and a `TxList` that reads as one `Tx`.  Its hash is that of
the fields of the body as they are read, and a software key signed the hash of these fields without
the signature. -/
theorem EncodeCall.wire_hash (hD : D.Sized) {c : EncodeCall} {e : Encoding} {enc : Encoded}
    (hrun : c.run sha256 D stack blockchainIdHash psize account = some e)
    (hok : e.result = .ok enc) :
    ∃ size content tx body,
      enc.message = 0 :: (size ++ content) ∧ size.length = 4 ∧ beNat size = content.length ∧
      decodeTxList content = some [tx] ∧ decodeTxBody tx.body = some body ∧
      tx.hash = (sha256 body.text).toList ∧ enc.txnHash.toList = tx.hash ∧
      (account.useLedger = false → e.handed = some (.ecdsa (sha256 body.unsignedText))) := by
  obtain ⟨sign, txn, htxn, hsized, hfit, -, rfl, hhanded⟩ := EncodeCall.sent hD hrun hok
  have hgas : txn.gasPrice = 0 := by rw [htxn]; exact EncodeCall.txn_gasPrice ..
  obtain ⟨hunsigned, htext⟩ := text_toBody hgas
  have hlen := txList_length_le txn (sha256 (preimage txn true))
  have hsmall := small_of_preimage hfit.text
  refine ⟨beBytes 4 _, _, _, _, rfl, beBytes_length .., ?_, decodeTxList_txList hsized _,
    decodeTxBody_body hsized, ?_, rfl, ?_⟩
  · rw [beNat_beBytes]
    exact Nat.mod_eq_of_lt (lt_of_le_of_lt hlen (by omega))
  · rw [htext]
  · rw [hunsigned]
    exact hhanded

end Message

/-- A transfer of one unit to a real address, with a software key. -/
theorem EncodeCall.wire_hash_transfer :
    ∃ e enc,
      (EncodeCall.transfer sampleAddress (some [1])).run Libaergo.sha256 softwareKey zeroStack
        sampleChain 1024 (sampleAccount false) = some e ∧ e.result = .ok enc ∧
      ∃ size content tx body,
        enc.message = 0 :: (size ++ content) ∧ size.length = 4 ∧ beNat size = content.length ∧
        decodeTxList content = some [tx] ∧ decodeTxBody tx.body = some body ∧
        tx.hash = (Libaergo.sha256 body.text).toList ∧ enc.txnHash.toList = tx.hash ∧
        ((sampleAccount false).useLedger = false →
          e.handed = some (.ecdsa (Libaergo.sha256 body.unsignedText))) := by
  obtain ⟨e, enc, he, henc⟩ := exists_of_any_ok
    (o := (EncodeCall.transfer sampleAddress (some [1])).run Libaergo.sha256 softwareKey zeroStack
      sampleChain 1024 (sampleAccount false)) (by decide +kernel)
  exact ⟨e, enc, he, henc, EncodeCall.wire_hash softwareKey_sized he henc⟩

/-! ### The Ledger -/

/-- **What the Ledger signs is what is sent.**  The device is given the type byte and the bare body
`T0`; the body of the message that is sent afterwards is `T0` followed by the field of the signature. -/
theorem ledger_signs_what_is_sent {sha256 : Bytes → Hash} {D : Devices} {account : Account} {txn : Txn}
    {psize : ℕ} {handed : Option SignInput} {sign : Bytes} {enc : Encoded}
    (hledger : account.useLedger = true) (hnew : txn.sign = [])
    (hsign : signTransaction sha256 D account txn = some ⟨handed, .ok sign⟩)
    (hpos : 1 ≤ sign.length) (hle : sign.length ≤ 80)
    (henc : encodeTransaction sha256 psize { txn with sign := sign } = some (.ok enc)) :
    ∃ T0 tx,
      handed = some (.ledger (UInt8.ofNat txn.type.toNat :: T0)) ∧
      decodeTxList (enc.message.drop 5) = some [tx] ∧
      tx.body = T0 ++ (0x52 :: UInt8.ofNat sign.length :: sign) := by
  have hsig : 0 < ({ txn with sign := sign } : Txn).sign.length := hpos
  obtain ⟨hfit, rfl⟩ := (encodeTransaction_ok_iff hsig).mp henc
  have hsized := sized_of_preimage hfit.text
  -- the bare body, as the device sees it
  have hbare : txn.Sized := ⟨hsized.amount, hsized.payload, by simp [hnew]⟩
  have hemit := emits_bareBody hbare hnew ⟨0, .bytes⟩
  rw [signTransaction, if_pos hledger, hemit.fromBuffer] at hsign
  split at hsign
  case h_1 => cases hsign
  case h_2 stream hstream =>
    split at hstream
    case isFalse => cases hstream
    case isTrue =>
      obtain rfl := Except.ok.inj hstream
      obtain ⟨rfl, -⟩ := Signing.mk.inj (Option.some.inj hsign)
      refine ⟨Wire.encode txn.unsignedBody,
        ⟨(sha256 (preimage { txn with sign := sign } true)).toList,
          Wire.encode ({ txn with sign := sign } : Txn).body⟩, rfl, ?_, ?_⟩
      · rw [frame_drop]
        exact decodeTxList_txList hsized _
      -- the body that is sent has the same fields and then the signature
      · have hlast : blobField 10 sign = lenField 10 sign := if_neg (by omega)
        have htag : varint (10 * 8 + 2) = [0x52] := by decide
        have hsame : ({ txn with sign := sign } : Txn).unsignedBody = txn.unsignedBody := rfl
        rw [Txn.body, hsame, Wire.encode_append, hlast]
        simp [lenField, Wire.encode, Wire.Field.text, Wire.Value.wt, Wire.Value.payload, htag,
          varint_of_lt (show sign.length < 128 by omega)]

/-- A contract call confirmed on a Ledger. -/
theorem ledger_signs_contract_call :
    ∃ txn handed enc,
      txn = contractCallTxn Libaergo.sha256 zeroStack sampleChain (sampleAccount true) sampleAddress
        [0x7b, 0x7d] ∧
      signTransaction Libaergo.sha256 ledgerDevice (sampleAccount true) txn =
        some ⟨handed, .ok sampleSignature⟩ ∧
      encodeTransaction Libaergo.sha256 1024 { txn with sign := sampleSignature } =
        some (.ok enc) ∧
      ∃ T0 tx,
        handed = some (.ledger (UInt8.ofNat txn.type.toNat :: T0)) ∧
        decodeTxList (enc.message.drop 5) = some [tx] ∧
        tx.body = T0 ++ (0x52 :: UInt8.ofNat sampleSignature.length :: sampleSignature) := by
  obtain ⟨txn, htxn⟩ : ∃ txn, txn = contractCallTxn Libaergo.sha256 zeroStack sampleChain
    (sampleAccount true) sampleAddress [0x7b, 0x7d] := ⟨_, rfl⟩
  have hany : ((signTransaction Libaergo.sha256 ledgerDevice (sampleAccount true) txn).any
      fun s => s.result.toOption = some sampleSignature) = true ∧
      ((encodeTransaction Libaergo.sha256 1024 { txn with sign := sampleSignature }).any
        Except.toBool) = true := by
    subst htxn
    decide +kernel
  obtain ⟨handed, hsign⟩ : ∃ handed,
      signTransaction Libaergo.sha256 ledgerDevice (sampleAccount true) txn =
        some ⟨handed, .ok sampleSignature⟩ := by
    obtain ⟨⟨handed, result⟩, hs, hres⟩ := (Option.any_eq_true _ _).mp hany.1
    cases result with
    | error error => cases hres
    | ok sig =>
      obtain rfl : sig = sampleSignature := by simpa [Except.toOption] using hres
      exact ⟨handed, hs⟩
  obtain ⟨enc, henc⟩ : ∃ enc,
      encodeTransaction Libaergo.sha256 1024 { txn with sign := sampleSignature } =
        some (.ok enc) := by
    obtain ⟨encoded, he, hok⟩ := (Option.any_eq_true _ _).mp hany.2
    cases encoded with
    | error error => cases hok
    | ok enc => exact ⟨enc, he⟩
  have hnew : txn.sign = [] := by rw [htxn]; rfl
  exact ⟨txn, handed, enc, htxn, hsign, henc,
    ledger_signs_what_is_sent rfl hnew hsign (by decide) (by decide) henc⟩

end Libaergo
