import Libaergo.Txn.Messages

/-!
# One call of an encoder

The three encoders as one: `EncodeCall` is a call with its arguments, `EncodeCall.run` the function it
calls.  `run_eq` takes a call apart: refused arguments, or the nonce is incremented and the
transaction of the call (`EncodeCall.txn`) goes through `signAndEncode`.  The inversion lemmas below
say what is known of a signature and of a message that came out.
-/

namespace Libaergo

open Lib Nanopb

/-- A call of one of the encoders, with the arguments that are its own. -/
inductive EncodeCall where
  | transfer (recipient : Bytes) (amount : Option Bytes)
  | contractCall (contractAddress callInfo : Bytes)
  | multiCall (payload : Bytes)

section Run

variable (sha256 : Bytes → Hash) (D : Devices) (stack : ℕ → UInt8) (blockchainIdHash : Hash)

def EncodeCall.run (psize : ℕ) (account : Account) : EncodeCall → Option Encoding
  | .transfer recipient amount =>
    encodeTransfer sha256 D stack blockchainIdHash psize account recipient amount
  | .contractCall contractAddress callInfo =>
    encodeContractCall sha256 D stack blockchainIdHash psize account contractAddress callInfo
  | .multiCall payload => encodeMultiCall sha256 D blockchainIdHash psize account payload

/-- `!amount || amount_len < 1` -/
def EncodeCall.Refused : EncodeCall → Prop
  | .transfer _ none => True
  | .transfer _ (some amount) => amount.length < 1
  | _ => False

instance (c : EncodeCall) : Decidable c.Refused := by
  unfold EncodeCall.Refused
  split <;> infer_instance

/-- The transaction a call builds. -/
def EncodeCall.txn (account : Account) : EncodeCall → Txn
  | .transfer recipient amount =>
    transferTxn sha256 stack blockchainIdHash account recipient (amount.getD [])
  | .contractCall contractAddress callInfo =>
    contractCallTxn sha256 stack blockchainIdHash account contractAddress callInfo
  | .multiCall payload => multiCallTxn blockchainIdHash account payload

theorem EncodeCall.run_eq (psize : ℕ) (account : Account) (c : EncodeCall) :
    c.run sha256 D stack blockchainIdHash psize account =
      if c.Refused then some ⟨account, none, .error none⟩
      else signAndEncode sha256 D psize account.bump
        (c.txn sha256 stack blockchainIdHash account.bump) := by
  match c with
  | .transfer _ none => rfl
  | .transfer recipient (some amount) =>
    by_cases h : amount.length < 1
    · have hr : (EncodeCall.transfer recipient (some amount)).Refused := h
      rw [if_pos hr]
      simp [run, encodeTransfer, h]
    · have hr : ¬ (EncodeCall.transfer recipient (some amount)).Refused := h
      rw [if_neg hr]
      simp [run, encodeTransfer, h, txn]
  | .contractCall _ _ => rfl
  | .multiCall _ => rfl

@[simp] lemma EncodeCall.txn_nonce (account : Account) (c : EncodeCall) :
    (c.txn sha256 stack blockchainIdHash account).nonce = account.nonce := by
  cases c <;> rfl

@[simp] lemma EncodeCall.txn_gasPrice (account : Account) (c : EncodeCall) :
    (c.txn sha256 stack blockchainIdHash account).gasPrice = 0 := by
  cases c <;> rfl

@[simp] lemma EncodeCall.txn_sign (account : Account) (c : EncodeCall) :
    (c.txn sha256 stack blockchainIdHash account).sign = [] := by
  cases c <;> rfl

@[simp] lemma EncodeCall.txn_chainIdHash (account : Account) (c : EncodeCall) :
    (c.txn sha256 stack blockchainIdHash account).chainIdHash = blockchainIdHash := by
  cases c <;> rfl

@[simp] lemma EncodeCall.txn_account (account : Account) (c : EncodeCall) :
    (c.txn sha256 stack blockchainIdHash account).account = account.pubkey := by
  cases c <;> rfl

end Run

/-! ### When a call succeeds -/

/-- The signers return 1 to 80 bytes, the size of the `sign` field. -/
structure Devices.Sized (D : Devices) : Prop where
  serializeDer : ∀ {sig der}, D.serializeDer sig = some der → 1 ≤ der.length ∧ der.length ≤ 80
  ledgerSign : ∀ {data sig}, D.ledgerSign data = .ok sig → 1 ≤ sig.length ∧ sig.length ≤ 80

section Success

variable (sha256 : Bytes → Hash) (D : Devices)

/-- What is shown to the signer fits its buffer, and the signer answers with `sign`. -/
def Signs (account : Account) (txn : Txn) (sign : Bytes) : Prop :=
  if account.useLedger then
    (Wire.encode txn.unsignedBody).length ≤ txnDataSize - 1 ∧
      D.ledgerSign (UInt8.ofNat txn.type.toNat :: Wire.encode txn.unsignedBody) = .ok sign
  else
    (preimage txn false).length ≤ 4096 ∧
      ∃ sig, D.ecdsaSign (sha256 (preimage txn false)) account.privkey = some sig ∧
        D.serializeDer sig = some sign

/-- The signed transaction fits the preimage buffer and the output buffer. -/
structure Fits (psize : ℕ) (txn : Txn) : Prop where
  text : (preimage txn true).length ≤ 4096
  message : (txn.txList (sha256 (preimage txn true))).length ≤ roomOf psize

variable {sha256 D} {psize : ℕ} {account : Account} {txn : Txn}

lemma small_of_preimage (h : (preimage txn true).length ≤ 4096) :
    txn.amount.length + (txn.payload.getD []).length + txn.sign.length ≤ 4096 := by
  have hl : txn.amount.length + (txn.payload.getD []).length + txn.sign.length ≤
      (preimage txn true).length := by
    simp [preimage]
    omega
  omega

lemma sized_of_preimage (h : (preimage txn true).length ≤ 4096) : txn.Sized := by
  have hl := small_of_preimage h
  exact ⟨by omega, by omega, by omega⟩

/-- `sign_transaction` returns true exactly when the signer answers. -/
lemma signTransaction_ok_iff (hsz : txn.Sized) (hnew : txn.sign = []) {sign : Bytes} :
    (∃ handed, signTransaction sha256 D account txn = some ⟨handed, .ok sign⟩) ↔
      Signs sha256 D account txn sign := by
  unfold Signs
  by_cases hl : account.useLedger = true
  · rw [if_pos hl, signTransaction, if_pos hl,
      (emits_bareBody hsz hnew ⟨0, .bytes⟩).fromBuffer]
    by_cases hroom : (Wire.encode txn.unsignedBody).length ≤ txnDataSize - 1
    · simp [hroom]
    · simp [hroom]
  · rw [if_neg hl, signTransaction, if_neg hl, calculateTxHash_eq]
    by_cases hp : (preimage txn false).length ≤ 4096
    · rw [if_pos hp]
      simp only [hp, true_and, Option.bind_eq_bind, Option.bind_some]
      cases hsig : D.ecdsaSign (sha256 (preimage txn false)) account.privkey with
      | none => simp
      | some sig =>
        cases hder : D.serializeDer sig with
        | none => simp [hder]
        | some der => simp [hder]
    · simp [hp]

lemma signTransaction_ecdsa {handed : Option SignInput} {result : Except String Bytes}
    (hl : account.useLedger = false)
    (h : signTransaction sha256 D account txn = some ⟨handed, result⟩) :
    handed = some (.ecdsa (sha256 (preimage txn false))) := by
  rw [signTransaction, hl, if_neg (by simp)] at h
  obtain ⟨hash, hhash, h⟩ := Option.bind_eq_some_iff.mp h
  rw [calculateTxHash_eq] at hhash
  split at hhash
  · obtain rfl := Option.some.inj hhash
    split at h
    · obtain ⟨rfl, -⟩ := Signing.mk.inj (Option.some.inj h)
      rfl
    · split at h
      · obtain ⟨rfl, -⟩ := Signing.mk.inj (Option.some.inj h)
        rfl
      · obtain ⟨rfl, -⟩ := Signing.mk.inj (Option.some.inj h)
        rfl
  · cases hhash

lemma signTransaction_signer {handed : Option SignInput} {sign : Bytes}
    (h : signTransaction sha256 D account txn = some ⟨handed, .ok sign⟩) :
    (∃ data, D.ledgerSign data = .ok sign) ∨ ∃ sig, D.serializeDer sig = some sign := by
  rw [signTransaction] at h
  split at h
  · split at h
    · cases h
    · obtain ⟨-, hres⟩ := Signing.mk.inj (Option.some.inj h)
      exact .inl ⟨_, hres⟩
  · obtain ⟨hash, -, h⟩ := Option.bind_eq_some_iff.mp h
    split at h
    · cases h
    · split at h
      · cases h
      · next hder =>
        obtain ⟨-, hres⟩ := Signing.mk.inj (Option.some.inj h)
        obtain rfl := Except.ok.inj hres
        exact .inr ⟨_, hder⟩

lemma signTransaction_sized (hD : D.Sized) {handed : Option SignInput} {sign : Bytes}
    (h : signTransaction sha256 D account txn = some ⟨handed, .ok sign⟩) :
    1 ≤ sign.length ∧ sign.length ≤ 80 := by
  rcases signTransaction_signer h with ⟨data, hsign⟩ | ⟨sig, hsign⟩
  · exact hD.ledgerSign hsign
  · exact hD.serializeDer hsign

/-- A message is written only when the preimage fits its buffer. -/
lemma encodeTransaction_ok_preimage {enc : Encoded}
    (h : encodeTransaction sha256 psize txn = some (.ok enc)) :
    (preimage txn true).length ≤ 4096 := by
  by_contra hp
  rw [encodeTransaction, encode1Transaction, calculateTxHash_eq, if_neg hp] at h
  split at h <;> cases h

lemma txList_pos (hash : Hash) : 0 < (txn.txList hash).length :=
  (Nat.succ_pos 0).trans_le (Wire.length_le_encode (lenField 1 (Wire.encode (txn.tx hash))))

/-- **`encode_transaction` writes a message exactly when it fits**, and then this one. -/
lemma encodeTransaction_ok_iff (hs : 0 < txn.sign.length) {enc : Encoded} :
    encodeTransaction sha256 psize txn = some (.ok enc) ↔
      Fits sha256 psize txn ∧
        enc = ⟨encodeHttp2DataFrame (txn.txList (sha256 (preimage txn true))),
          sha256 (preimage txn true)⟩ := by
  by_cases hpre : (preimage txn true).length ≤ 4096
  · have hsz := sized_of_preimage hpre
    have hpos : 0 < (txn.txList (sha256 (preimage txn true))).length := txList_pos _
    rw [encodeTransaction_eq sha256 psize hsz hs, if_neg (Nat.not_lt.mpr hpre)]
    by_cases hfit : (txn.txList (sha256 (preimage txn true))).length ≤ roomOf psize
    · have hf : Fits sha256 psize txn := ⟨hpre, hfit⟩
      rw [if_neg (by omega), if_pos hfit]
      simp only [hf, true_and, Option.some.injEq, Except.ok.injEq]
      exact eq_comm
    · have hf : ¬ Fits sha256 psize txn := fun h => hfit h.message
      simp only [hf, false_and, iff_false]
      rw [if_neg hfit]
      split <;> simp
  · have hf : ¬ Fits sha256 psize txn := fun h => hpre h.text
    simp only [hf, false_and, iff_false]
    exact fun h => hpre (encodeTransaction_ok_preimage h)

lemma signAndEncode_ok {e : Encoding} {enc : Encoded}
    (h : signAndEncode sha256 D psize account txn = some e) (hok : e.result = .ok enc) :
    ∃ sign, signTransaction sha256 D account txn = some ⟨e.handed, .ok sign⟩ ∧
      encodeTransaction sha256 psize { txn with sign := sign } = some (.ok enc) := by
  rw [signAndEncode] at h
  obtain ⟨⟨handed, result⟩, hsign, h⟩ := Option.bind_eq_some_iff.mp h
  cases result with
  | error error =>
    obtain rfl := Option.some.inj h
    cases hok
  | ok sign =>
    obtain ⟨encoded, henc, h⟩ := Option.bind_eq_some_iff.mp h
    obtain rfl := Option.some.inj h
    cases encoded with
    | error error => cases hok
    | ok enc' =>
      obtain rfl : enc' = enc := by simpa [Except.mapError] using hok
      exact ⟨sign, hsign, henc⟩

lemma signAndEncode_account {e : Encoding} (h : signAndEncode sha256 D psize account txn = some e) :
    e.account = account := by
  rw [signAndEncode] at h
  obtain ⟨⟨handed, result⟩, -, h⟩ := Option.bind_eq_some_iff.mp h
  cases result with
  | error error =>
    obtain rfl := Option.some.inj h
    rfl
  | ok sign =>
    obtain ⟨encoded, -, h⟩ := Option.bind_eq_some_iff.mp h
    obtain rfl := Option.some.inj h
    rfl

/-- **When an encoder returns true**: the signer answers, and what it signed fits. -/
theorem signAndEncode_ok_iff (hD : D.Sized) (hnew : txn.sign = []) :
    (∃ e enc, signAndEncode sha256 D psize account txn = some e ∧ e.result = .ok enc) ↔
      ∃ sign, Signs sha256 D account txn sign ∧ Fits sha256 psize { txn with sign := sign } := by
  -- a transaction that fits once signed is small before
  have hsmall : ∀ sign, Fits sha256 psize { txn with sign := sign } → txn.Sized := by
    intro sign hfit
    have hsz := sized_of_preimage hfit.text
    exact ⟨hsz.amount, hsz.payload, by simp [hnew]⟩
  constructor
  · rintro ⟨e, enc, h, hok⟩
    obtain ⟨sign, hsign, henc⟩ := signAndEncode_ok h hok
    have hpos : 0 < ({ txn with sign := sign } : Txn).sign.length :=
      (signTransaction_sized hD hsign).1
    obtain ⟨hfit, -⟩ := (encodeTransaction_ok_iff hpos).mp henc
    exact ⟨sign, (signTransaction_ok_iff (hsmall sign hfit) hnew).mp ⟨_, hsign⟩, hfit⟩
  · rintro ⟨sign, hsigns, hfit⟩
    obtain ⟨handed, hsign⟩ := (signTransaction_ok_iff (hsmall sign hfit) hnew).mpr hsigns
    have hpos : 0 < ({ txn with sign := sign } : Txn).sign.length :=
      (signTransaction_sized hD hsign).1
    obtain ⟨enc, henc⟩ : ∃ enc,
        encodeTransaction sha256 psize { txn with sign := sign } = some (.ok enc) :=
      ⟨_, (encodeTransaction_ok_iff hpos).mpr ⟨hfit, rfl⟩⟩
    refine ⟨⟨account, handed, .ok enc⟩, enc, ?_, rfl⟩
    rw [signAndEncode, hsign, Option.bind_eq_bind, Option.bind_some]
    show (encodeTransaction _ _ _).bind _ = _
    rw [henc]
    rfl

variable {stack : ℕ → UInt8} {blockchainIdHash : Hash}

/-- **What is sent**: the transaction of the call with a signature of its signer, framed. -/
theorem EncodeCall.sent (hD : D.Sized) {c : EncodeCall} {e : Encoding} {enc : Encoded}
    (hrun : c.run sha256 D stack blockchainIdHash psize account = some e)
    (hok : e.result = .ok enc) :
    ∃ sign, ∃ txn : Txn,
      txn = { c.txn sha256 stack blockchainIdHash account.bump with sign := sign } ∧ txn.Sized ∧
      Fits sha256 psize txn ∧ e.account = account.bump ∧
      enc = ⟨encodeHttp2DataFrame (txn.txList (sha256 (preimage txn true))),
        sha256 (preimage txn true)⟩ ∧
      (account.useLedger = false → e.handed = some (.ecdsa (sha256 (preimage txn false)))) := by
  rw [EncodeCall.run_eq] at hrun
  split at hrun
  · obtain rfl := Option.some.inj hrun
    cases hok
  obtain ⟨sign, hsign, henc⟩ := signAndEncode_ok hrun hok
  have hpos : 0 < ({ c.txn sha256 stack blockchainIdHash account.bump with
      sign := sign } : Txn).sign.length := (signTransaction_sized hD hsign).1
  obtain ⟨hfit, henc⟩ := (encodeTransaction_ok_iff hpos).mp henc
  refine ⟨sign, _, rfl, sized_of_preimage hfit.text, hfit, signAndEncode_account hrun, henc, ?_⟩
  intro hl
  have hl' : account.bump.useLedger = false := hl
  have hhanded := signTransaction_ecdsa hl' hsign
  exact hhanded

end Success

/-! ### The frame -/

lemma frame_drop (content : Bytes) : (encodeHttp2DataFrame content).drop 5 = content := by
  have h : (0 :: beBytes 4 content.length).length = 5 := by simp
  exact List.drop_left' h

/-- **What a reader finds in the message of a call**: its transaction with a signature, and the hashes of what
is read. -/
theorem EncodeCall.read {sha256 : Bytes → Hash} {D : Devices} (hD : D.Sized) {stack : ℕ → UInt8}
    {blockchainIdHash : Hash} {psize : ℕ} {account : Account} {c : EncodeCall} {e : Encoding} {enc : Encoded}
    (hrun : c.run sha256 D stack blockchainIdHash psize account = some e) (hok : e.result = .ok enc) :
    ∃ sign txn tx, txn = { c.txn sha256 stack blockchainIdHash account.bump with sign := sign } ∧
      decodeTxList (enc.message.drop 5) = some [tx] ∧ decodeTxBody tx.body = some txn.toBody ∧
      tx.hash = (sha256 txn.toBody.text).toList ∧
      (account.useLedger = false → e.handed = some (.ecdsa (sha256 txn.toBody.unsignedText))) := by
  obtain ⟨sign, txn, htxn, hsized, -, -, rfl, hhanded⟩ := EncodeCall.sent hD hrun hok
  have hgas : txn.gasPrice = 0 := by
    rw [htxn]
    exact EncodeCall.txn_gasPrice ..
  obtain ⟨hunsigned, htext⟩ := text_toBody hgas
  refine ⟨sign, txn, ⟨(sha256 (preimage txn true)).toList, Wire.encode txn.body⟩, htxn, ?_,
    decodeTxBody_body hsized, ?_, ?_⟩
  · rw [frame_drop]
    exact decodeTxList_txList hsized _
  · rw [htext]
  · rw [hunsigned]
    exact hhanded

/-- The body that a reader finds in the message of a call. -/
def Encoding.sentBody (e : Encoding) : Option TxBody :=
  e.result.toOption.bind fun enc =>
    (decodeTxList (enc.message.drop 5)).bind fun txs =>
      txs.head?.bind fun tx => decodeTxBody tx.body

lemma Encoding.sentBody_eq {e : Encoding} {enc : Encoded} {tx : Tx} {body : TxBody}
    (hok : e.result = .ok enc) (htx : decodeTxList (enc.message.drop 5) = some [tx])
    (hbody : decodeTxBody tx.body = some body) : e.sentBody = some body := by
  simp [Encoding.sentBody, hok, Except.toOption, htx, hbody]

/-! ### Sample values -/

/-- A software key whose signatures are DER sequences of two 32-byte integers, and no Ledger. -/
def softwareKey : Devices where
  ecdsaSign := fun _ _ => some (List.replicate 64 1)
  serializeDer := fun sig =>
    some ([0x30, 68, 0x02, 32] ++ (sig.take 32).leftpad 32 0 ++
      [0x02, 32] ++ ((sig.drop 32).take 32).leftpad 32 0)
  ledgerSign := fun _ => .error "No dongle found or application not open"

/-- A DER sequence of two 32-byte integers. -/
def sampleSignature : Bytes :=
  [0x30, 68, 0x02, 32] ++ List.replicate 32 1 ++ [0x02, 32] ++ List.replicate 32 1

def ledgerDevice : Devices where
  ecdsaSign := fun _ _ => none
  serializeDer := fun _ => none
  ledgerSign := fun _ => .ok sampleSignature

def refusingLedger : Devices where
  ecdsaSign := fun _ _ => none
  serializeDer := fun _ => none
  ledgerSign := fun _ => .error "Dongle application error : 6985"

def sampleAccount (useLedger : Bool) : Account where
  useLedger := useLedger
  privkey := Vector.replicate 32 1
  pubkey := Vector.replicate 33 2
  nonce := 7

/-- The address `AmgLnRaGFLyvCPCEMHYJHooufT1c1pENTRGeV78WNPTxwQ2RYUW7`. -/
def sampleAddress : Bytes :=
  [0x41, 0x6d, 0x67, 0x4c, 0x6e, 0x52, 0x61, 0x47, 0x46, 0x4c, 0x79, 0x76, 0x43, 0x50, 0x43, 0x45,
   0x4d, 0x48, 0x59, 0x4a, 0x48, 0x6f, 0x6f, 0x75, 0x66, 0x54, 0x31, 0x63, 0x31, 0x70, 0x45, 0x4e,
   0x54, 0x52, 0x47, 0x65, 0x56, 0x37, 0x38, 0x57, 0x4e, 0x50, 0x54, 0x78, 0x77, 0x51, 0x32, 0x52,
   0x59, 0x55, 0x57, 0x37]

def sampleChain : Hash := Vector.replicate 32 3

def zeroStack : ℕ → UInt8 := fun _ => 0

lemma softwareKey_sized : softwareKey.Sized where
  serializeDer := by
    rintro sig der ⟨⟩
    simp
    omega
  ledgerSign := by rintro data sig ⟨⟩

lemma ledgerDevice_sized : ledgerDevice.Sized where
  serializeDer := by rintro sig der ⟨⟩
  ledgerSign := by
    rintro data sig ⟨⟩
    decide

lemma refusingLedger_sized : refusingLedger.Sized where
  serializeDer := by rintro sig der ⟨⟩
  ledgerSign := by rintro data sig ⟨⟩

lemma preimage_length_le (txn : Txn) (includeSignature : Bool) :
    (preimage txn includeSignature).length ≤
      119 + txn.amount.length + (txn.payload.getD []).length + txn.sign.length := by
  have hr := recipientBytes_length_le txn
  have hs : (if includeSignature then txn.sign else []).length ≤ txn.sign.length := by
    split <;> simp
  simp only [preimage, List.length_append, leBytes_length, Vector.length_toList, List.length_take]
  omega

/-- The software key signs and the message fits, when there is little to send. -/
lemma softwareKey_ok {sha256 : Bytes → Hash} {account : Account} {txn : Txn}
    (hl : account.useLedger = false) (hnew : txn.sign = [])
    (hsmall : txn.amount.length + (txn.payload.getD []).length ≤ 500) :
    ∃ e enc, signAndEncode sha256 softwareKey 1024 account txn = some e ∧ e.result = .ok enc := by
  refine (signAndEncode_ok_iff softwareKey_sized hnew).mpr ⟨sampleSignature, ?_, ?_, ?_⟩
  · have hpre := preimage_length_le txn false
    rw [hnew, List.length_nil] at hpre
    rw [Signs, hl, if_neg (by simp)]
    exact ⟨by omega, _, rfl, rfl⟩
  · have hpre := preimage_length_le { txn with sign := sampleSignature } true
    have hsig : sampleSignature.length = 70 := by decide
    refine hpre.trans ?_
    show 119 + txn.amount.length + (txn.payload.getD []).length + sampleSignature.length ≤ 4096
    omega
  · have hsig : sampleSignature.length = 70 := by decide
    refine (txList_length_le _ _).trans ?_
    rw [roomOf_eq (by omega) (by omega)]
    show 398 + txn.amount.length + (txn.payload.getD []).length + sampleSignature.length ≤ 1024 - 5
    omega

lemma exists_of_any_ok {o : Option Encoding} (h : o.any Encoding.ok = true) :
    ∃ e enc, o = some e ∧ e.result = .ok enc := by
  match o, h with
  | some ⟨account, handed, .ok enc⟩, _ => exact ⟨_, enc, rfl, rfl⟩

end Libaergo
