import Libaergo.Txn.Binding
import Libaergo.Socket.Transaction

/-!
# The buffer of the hash

`calculate_tx_hash` copies the fields into a buffer of 4096 bytes without looking at their lengths, and
none of its callers knows the limit: `aergo_multicall` and `aergo_call_smart_contract` take a payload of
any length, `aergo_transfer_bignum` an amount of any length.  The fields of fixed width take 86 bytes and
the signature up to 80, so that 3930 are left for the recipient, the amount and the payload.
-/

namespace Libaergo

open Lib

/-! ### The length of the preimage -/

lemma preimage_length (txn : Txn) : (preimage txn false).length = 86 + txn.middle.length := by
  rw [preimage_eq_middle]
  simp
  omega

lemma preimage_length_sign (txn : Txn) (sign : Bytes) :
    (preimage { txn with sign := sign } true).length = 86 + txn.middle.length + sign.length := by
  have h : preimage { txn with sign := sign } true = preimage txn false ++ sign := by
    simp [preimage, Txn.recipientBytes, Txn.hasRecipient, List.append_assoc]
  rw [h, List.length_append, preimage_length]

/-! ### The encoders -/

/-- A signature that takes the whole `sign` field. -/
def longSignature : Bytes := List.replicate 80 1

lemma longSignature_length : longSignature.length = 80 := List.length_replicate ..

def longSignatures : Devices where
  ecdsaSign := fun _ _ => some []
  serializeDer := fun _ => some longSignature
  ledgerSign := fun _ => .error "No dongle found or application not open"

lemma longSignatures_sized : longSignatures.Sized where
  serializeDer := by
    rintro sig der ⟨⟩
    rw [longSignature_length]
    omega
  ledgerSign := by rintro data sig ⟨⟩

section Encoders

variable {sha256 : Bytes → Hash} {D : Devices} {psize : ℕ} {account : Account} {txn : Txn}

/-- With room for a signature of 80 bytes, whatever the signer does. -/
lemma signAndEncode_isSome (hD : D.Sized) (h : txn.middle.length ≤ 3930) :
    (signAndEncode sha256 D psize account txn).isSome = true := by
  obtain ⟨⟨handed, result⟩, hsign⟩ : ∃ s, signTransaction sha256 D account txn = some s := by
    have hpre : (preimage txn false).length ≤ 4096 := by
      rw [preimage_length]
      omega
    unfold signTransaction
    split
    · split <;> exact ⟨_, rfl⟩
    · rw [calculateTxHash_eq, if_pos hpre, Option.bind_eq_bind, Option.bind_some]
      split
      · exact ⟨_, rfl⟩
      · split <;> exact ⟨_, rfl⟩
  rw [signAndEncode, hsign, Option.bind_eq_bind, Option.bind_some]
  cases result with
  | error error => rfl
  | ok sign =>
    obtain ⟨hpos, hle⟩ := signTransaction_sized hD hsign
    have hfits : (preimage { txn with sign := sign } true).length ≤ 4096 := by
      rw [preimage_length_sign]
      omega
    have hsized := sized_of_preimage hfits
    obtain ⟨encoded, hencoded⟩ :
        ∃ e, encodeTransaction sha256 psize { txn with sign := sign } = some e := by
      rw [encodeTransaction_eq sha256 psize hsized hpos, if_neg (Nat.not_lt.mpr hfits)]
      split
      · exact ⟨_, rfl⟩
      · dsimp only
        split <;> exact ⟨_, rfl⟩
    show ((encodeTransaction sha256 psize { txn with sign := sign }).bind _).isSome = true
    rw [hencoded]
    rfl

lemma signAndEncode_none_of {handed : Option SignInput} {sign : Bytes}
    (hsign : signTransaction sha256 D account txn = some ⟨handed, .ok sign⟩)
    (hnone : encodeTransaction sha256 psize { txn with sign := sign } = none) :
    signAndEncode sha256 D psize account txn = none := by
  rw [signAndEncode, hsign, Option.bind_eq_bind, Option.bind_some]
  exact (congrArg (fun o => Option.bind o _) hnone).trans (Option.bind_none _)

/-- A software key is asked to sign the hash of a preimage that overruns the buffer. -/
lemma signAndEncode_none_of_long (hl : account.useLedger = false) (h : 4010 < txn.middle.length) :
    signAndEncode sha256 D psize account txn = none := by
  have hlong : ¬ (preimage txn false).length ≤ 4096 := by
    rw [preimage_length]
    omega
  have hsign : signTransaction sha256 D account txn = none := by
    rw [signTransaction, hl, if_neg (by simp), calculateTxHash_eq, if_neg hlong]
    rfl
  rw [signAndEncode, hsign]
  rfl

/-- Without it, the software key that signs with 80 bytes overruns the buffer. -/
lemma signAndEncode_none (hl : account.useLedger = false)
    (hroom : (preimage txn false).length ≤ 4096 → 1 ≤ roomOf psize) (h : 3930 < txn.middle.length) :
    signAndEncode sha256 longSignatures psize account txn = none := by
  by_cases hpre : (preimage txn false).length ≤ 4096
  · -- the signature is made, and the hash with the signature overruns
    have hsign : signTransaction sha256 longSignatures account txn =
        some ⟨some (.ecdsa (sha256 (preimage txn false))), .ok longSignature⟩ := by
      rw [signTransaction, hl, if_neg (by simp), calculateTxHash_eq, if_pos hpre]
      rfl
    have hfull : 4096 < (preimage { txn with sign := longSignature } true).length := by
      rw [preimage_length_sign, longSignature_length]
      omega
    have hsized : ({ txn with sign := longSignature } : Txn).Sized := by
      rw [preimage_length] at hpre
      simp only [Txn.middle, List.length_append] at hpre
      have hamount : txn.amount.length < 2 ^ 60 := by omega
      have hpayload : (txn.payload.getD []).length < 2 ^ 60 := by omega
      refine ⟨hamount, hpayload, ?_⟩
      show longSignature.length < 2 ^ 60
      rw [longSignature_length]
      omega
    have hpos : 0 < ({ txn with sign := longSignature } : Txn).sign.length := by
      rw [longSignature_length]
      omega
    have hroom' := hroom hpre
    have hnone : encodeTransaction sha256 psize { txn with sign := longSignature } = none := by
      rw [encodeTransaction_eq sha256 psize hsized hpos, if_neg (by omega), if_pos hfull]
    exact signAndEncode_none_of hsign hnone
  · rw [preimage_length] at hpre
    exact signAndEncode_none_of_long hl (by omega)

end Encoders

/-! ### The entry points -/

namespace EntryPoint

section WritesInside

variable (sha256 : Bytes → Hash) (stack : ℕ → UInt8)

/-- Whatever the account and the signer, `calculate_tx_hash` writes only inside its buffer, for the
signer and for the hash of the transaction, or the call fails before it is reached. -/
def WritesInside (t : EntryPoint) : Prop :=
  ∀ (D : Devices) (chain : Hash) (account : Account), D.Sized →
    (t.encode.run sha256 D stack chain t.psize account).isSome = true

/-- The bytes that a recipient text contributes. -/
def recipientLength (str : Bytes) : ℕ :=
  if getElem (decodeInto sha256 stack str) 0 Address.pos ≠ 0 then 33 else 0

/-- The bytes of the recipient, the amount and the payload. -/
def fieldLength : EntryPoint → ℕ
  | .transferBignum toAccount amount => recipientLength sha256 stack toAccount + amount.length
  | .multicall payload => 1 + payload.length
  | .callSmartContract contractAddress function args =>
    recipientLength sha256 stack contractAddress + (1 + (callInfo function args).length)

variable {sha256 stack}

lemma middle_length (t : EntryPoint) (chain : Hash) (account : Account) :
    (t.encode.txn sha256 stack chain account).middle.length = t.fieldLength sha256 stack := by
  have hrec : ∀ (txn : Txn) (str : Bytes), txn.recipient = decodeInto sha256 stack str →
      txn.recipientBytes.length = recipientLength sha256 stack str := by
    intro txn str h
    have hiff : txn.hasRecipient ↔ getElem (decodeInto sha256 stack str) 0 Address.pos ≠ 0 := by
      rw [Txn.hasRecipient, h]
    unfold Txn.recipientBytes recipientLength
    by_cases h0 : txn.hasRecipient
    · rw [if_pos h0, if_pos (hiff.mp h0), Vector.length_toList]
    · rw [if_neg h0, if_neg fun h => h0 (hiff.mpr h), List.length_nil]
  simp only [Txn.middle, List.length_append]
  cases t with
  | transferBignum toAccount amount =>
    rw [hrec _ toAccount rfl]
    rfl
  | multicall payload =>
    have hnone : ((multicall payload).encode.txn sha256 stack chain account).recipientBytes = [] :=
      recipientBytes_multiCall payload
    rw [hnone]
    simp [encode, EncodeCall.txn, fieldLength, multiCallTxn]
  | callSmartContract contractAddress function args =>
    rw [hrec _ contractAddress rfl]
    rfl

/-- The output buffer is never smaller than a header, unless its size overflows. -/
lemma room_pos (sha256 : Bytes → Hash) (stack : ℕ → UInt8) (t : EntryPoint)
    (h : t.fieldLength sha256 stack ≤ 4010) : 1 ≤ roomOf t.psize := by
  have hsize : 300 ≤ t.psize ∧ t.psize ≤ t.fieldLength sha256 stack + 1024 := by
    cases t with
    | transferBignum toAccount amount => simp [psize, fieldLength]
    | multicall payload =>
      simp only [psize, fieldLength]
      omega
    | callSmartContract contractAddress function args =>
      have hinfo : function.length + (args.getD []).length ≤ (callInfo function args).length := by
        unfold callInfo
        split
        · simp
          omega
        · next hargs =>
          simp [not_not.mp hargs]
          omega
      simp only [psize, fieldLength]
      omega
  rw [roomOf_eq (by omega) (by omega)]
  omega

/-- **The preimage stays in its buffer exactly when the recipient, the amount and the payload have 3930
bytes at most.** -/
theorem writesInside_iff {t : EntryPoint} (ht : t.Accepts) :
    t.WritesInside sha256 stack ↔ t.fieldLength sha256 stack ≤ 3930 := by
  have hrefused : ¬ t.encode.Refused := by
    cases t with
    | transferBignum toAccount amount => exact Nat.not_lt.mpr ht
    | multicall payload => exact id
    | callSmartContract contractAddress function args => exact id
  constructor
  · intro h
    by_contra hlong
    have hrun := h longSignatures sampleChain (sampleAccount false) longSignatures_sized
    rw [EncodeCall.run_eq, if_neg hrefused, signAndEncode_none rfl] at hrun
    · cases hrun
    · intro hpre
      rw [preimage_length, middle_length] at hpre
      exact room_pos sha256 stack t (by omega)
    · rw [middle_length]
      omega
  · intro h D chain account hD
    rw [EncodeCall.run_eq, if_neg hrefused]
    exact signAndEncode_isSome hD (by rwa [middle_length])

end WritesInside

/-- An empty multicall. -/
theorem writesInside_emptyMulticall :
    (multicall []).WritesInside Libaergo.sha256 zeroStack :=
  (writesInside_iff (show (multicall []).Accepts from trivial)).mpr (by decide)

/-- **A multicall with a payload of 5000 bytes overruns the buffer**, for any signer. -/
theorem long_multicall_overruns :
    (multicall (List.replicate 5000 0x20)).Accepts ∧
      ∀ D : Devices, (multicall (List.replicate 5000 0x20)).encode.run Libaergo.sha256 D zeroStack
        sampleChain (multicall (List.replicate 5000 0x20)).psize (sampleAccount false) = none := by
  refine ⟨trivial, fun D => ?_⟩
  have hlong : 4010 < ((multicall (List.replicate 5000 0x20)).encode.txn Libaergo.sha256 zeroStack
      sampleChain (sampleAccount false).bump).middle.length := by
    rw [middle_length, fieldLength, List.length_replicate]
    omega
  have hrefused : ¬ (multicall (List.replicate 5000 0x20)).encode.Refused := id
  rw [EncodeCall.run_eq, if_neg hrefused]
  exact signAndEncode_none_of_long rfl hlong

end EntryPoint

end Libaergo
