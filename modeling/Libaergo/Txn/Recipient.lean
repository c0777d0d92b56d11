import Libaergo.Txn.Calls

/-!
# The recipient of a signed transaction

`EncodeTransfer` and `EncodeContractCall` decode the address they are given into the zeroed recipient
field and do not look at the result; both encoders then take a recipient whose first byte is zero as
absent.  A text that does not decode is therefore signed and sent all the same, to nobody.  The two
functions name the caller's recipient exactly when the text decodes to an address whose first byte is
not zero.
-/

namespace Libaergo

open Lib

/-- The recipient text of a call. -/
def EncodeCall.recipientText : EncodeCall → Option Bytes
  | .transfer recipient _ => some recipient
  | .contractCall contractAddress _ => some contractAddress
  | .multiCall _ => none

section Recipient

variable (sha256 : Bytes → Hash) (stack : ℕ → UInt8)

/-- A reader of the message finds the recipient `r`, in the body and in the texts of the hashes. -/
def Names (r : Address) (account : Account) (e : Encoding) (enc : Encoded) : Prop :=
  ∃ tx body,
    decodeTxList (enc.message.drop 5) = some [tx] ∧ decodeTxBody tx.body = some body ∧
    body.recipient = r.toList ∧ tx.hash = (sha256 body.text).toList ∧
    (account.useLedger = false → e.handed = some (.ecdsa (sha256 body.unsignedText)))

/-- What a caller expects of a call with the recipient text `str`: without an address, nothing is
signed and the call fails; with one, a call that returns true names it. -/
def RespectsRecipient (str : Bytes) (account : Account) (e : Encoding) : Prop :=
  match decodeAddress sha256 stack str with
  | none => e.ok = false ∧ e.handed = none
  | some r => ∀ enc, e.result = .ok enc → Names sha256 r account e enc

/-- The text decodes to an address whose first byte is not zero. -/
def DecodesNonzero (str : Bytes) : Prop :=
  ∃ r : Address, decodeAddress sha256 stack str = some r ∧ getElem r 0 Address.pos ≠ 0

variable {sha256 stack} {D : Devices} {blockchainIdHash : Hash} {psize : ℕ} {account : Account}
  {str : Bytes}

lemma EncodeCall.txn_recipient {c : EncodeCall} (h : c.recipientText = some str) :
    (c.txn sha256 stack blockchainIdHash account).recipient = decodeInto sha256 stack str := by
  cases c with
  | transfer recipient amount =>
    obtain rfl := Option.some.inj h
    rfl
  | contractCall contractAddress callInfo =>
    obtain rfl := Option.some.inj h
    rfl
  | multiCall payload => cases h

/-- The body of a message names what `decode_address` left in the field, unless its first byte is
zero. -/
lemma EncodeCall.names (hD : D.Sized) {c : EncodeCall} (hstr : c.recipientText = some str)
    {e : Encoding} {enc : Encoded}
    (hrun : c.run sha256 D stack blockchainIdHash psize account = some e)
    (hok : e.result = .ok enc) :
    ∃ tx body,
      decodeTxList (enc.message.drop 5) = some [tx] ∧ decodeTxBody tx.body = some body ∧
      body.recipient =
        (if getElem (decodeInto sha256 stack str) 0 Address.pos ≠ 0 then
          (decodeInto sha256 stack str).toList
        else []) ∧
      tx.hash = (sha256 body.text).toList ∧
      (account.useLedger = false → e.handed = some (.ecdsa (sha256 body.unsignedText))) := by
  obtain ⟨sign, txn, tx, htxn, htx, hbody, hhash, hhanded⟩ := EncodeCall.read hD hrun hok
  have hrec : txn.recipient = decodeInto sha256 stack str := by
    rw [htxn]
    exact EncodeCall.txn_recipient hstr
  refine ⟨tx, txn.toBody, htx, hbody, ?_, hhash, hhanded⟩
  show txn.recipientBytes = _
  simp only [Txn.recipientBytes, Txn.hasRecipient, hrec]

lemma respectsRecipient_of_decodes (h : DecodesNonzero sha256 stack str) (hD : D.Sized)
    {c : EncodeCall} (hstr : c.recipientText = some str) {e : Encoding}
    (hrun : c.run sha256 D stack blockchainIdHash psize account = some e) :
    RespectsRecipient sha256 stack str account e := by
  obtain ⟨r, hr, h0⟩ := h
  have hinto : decodeInto sha256 stack str = r := by rw [decodeInto, hr, Option.getD_some]
  rw [RespectsRecipient, hr]
  intro enc hok
  obtain ⟨tx, body, htx, hbody, hrec, hhashes⟩ := EncodeCall.names hD hstr hrun hok
  rw [hinto, if_pos h0] at hrec
  exact ⟨tx, body, htx, hbody, hrec, hhashes⟩

/-- Otherwise a small transaction with a software key is signed and sent without a recipient. -/
lemma not_respectsRecipient (h : ¬ DecodesNonzero sha256 stack str) {c : EncodeCall}
    (hstr : c.recipientText = some str) (hc : ¬ c.Refused)
    (hsmall : ∀ account : Account,
      let txn := c.txn sha256 stack sampleChain account
      txn.amount.length + (txn.payload.getD []).length ≤ 500) :
    ∃ e, c.run sha256 softwareKey stack sampleChain 1024 (sampleAccount false) = some e ∧
      ¬ RespectsRecipient sha256 stack str (sampleAccount false) e := by
  obtain ⟨e, enc, hrun, hok⟩ :
      ∃ e enc, c.run sha256 softwareKey stack sampleChain 1024 (sampleAccount false) = some e ∧
        e.result = .ok enc := by
    have hl : (sampleAccount false).bump.useLedger = false := rfl
    rw [EncodeCall.run_eq, if_neg hc]
    exact softwareKey_ok hl (EncodeCall.txn_sign ..) (hsmall _)
  refine ⟨e, hrun, ?_⟩
  unfold RespectsRecipient
  split
  case h_1 =>
    rintro ⟨hfail, -⟩
    rw [Encoding.ok, hok] at hfail
    cases hfail
  case h_2 r hr =>
    intro hnames
    have h0 : ¬ getElem r 0 Address.pos ≠ 0 := fun h0 => h ⟨r, hr, h0⟩
    have hinto : decodeInto sha256 stack str = r := by rw [decodeInto, hr, Option.getD_some]
    obtain ⟨tx, body, htx, hbody, hrec, -⟩ := EncodeCall.names softwareKey_sized hstr hrun hok
    obtain ⟨tx', body', htx', hbody', hrec', -⟩ := hnames enc hok
    obtain rfl : tx = tx' := by simpa [htx] using htx'
    obtain rfl : body = body' := by simpa [hbody] using hbody'
    rw [hinto, if_neg h0, hrec'] at hrec
    have hlen := congrArg List.length hrec
    simp at hlen

/-- **`EncodeTransfer` and `EncodeContractCall` respect the recipient text exactly when it decodes to an
address whose first byte is not zero.** -/
theorem respectsRecipient_iff (sha256 : Bytes → Hash) (stack : ℕ → UInt8) (str : Bytes) :
    ((∀ (D : Devices) (blockchainIdHash : Hash) (psize : ℕ) (account : Account)
        (amount : Option Bytes) (e : Encoding), D.Sized →
        encodeTransfer sha256 D stack blockchainIdHash psize account str amount = some e →
        RespectsRecipient sha256 stack str account e) ↔ DecodesNonzero sha256 stack str) ∧
    ((∀ (D : Devices) (blockchainIdHash : Hash) (psize : ℕ) (account : Account)
        (callInfo : Bytes) (e : Encoding), D.Sized →
        encodeContractCall sha256 D stack blockchainIdHash psize account str callInfo = some e →
        RespectsRecipient sha256 stack str account e) ↔ DecodesNonzero sha256 stack str) := by
  refine ⟨⟨?_, ?_⟩, ⟨?_, ?_⟩⟩
  · intro h
    by_contra hn
    obtain ⟨e, hrun, hbad⟩ := not_respectsRecipient hn
      (c := .transfer str (some [1])) rfl (by simp [EncodeCall.Refused])
      (fun _ => by simp [EncodeCall.txn, transferTxn])
    exact hbad (h softwareKey sampleChain 1024 _ (some [1]) e softwareKey_sized hrun)
  · intro h D chain psize account amount e hD hrun
    exact respectsRecipient_of_decodes h hD (c := .transfer str amount) rfl hrun
  · intro h
    by_contra hn
    obtain ⟨e, hrun, hbad⟩ := not_respectsRecipient hn
      (c := .contractCall str []) rfl (by simp [EncodeCall.Refused])
      (fun _ => by simp [EncodeCall.txn, contractCallTxn])
    exact hbad (h softwareKey sampleChain 1024 _ [] e softwareKey_sized hrun)
  · intro h D chain psize account callInfo e hD hrun
    exact respectsRecipient_of_decodes h hD (c := .contractCall str callInfo) rfl hrun

end Recipient

/-- **A transfer to the text `bob` is signed and returns true**, although `bob` is no address. -/
theorem encodeTransfer_to_bob :
    decodeAddress sha256 zeroStack [0x62, 0x6f, 0x62] = none ∧
      ∃ e, encodeTransfer sha256 softwareKey zeroStack sampleChain 1024 (sampleAccount false)
          [0x62, 0x6f, 0x62] (some [1]) = some e ∧
        e.ok = true ∧ ¬ RespectsRecipient sha256 zeroStack [0x62, 0x6f, 0x62] (sampleAccount false) e := by
  have hnone : decodeAddress sha256 zeroStack [0x62, 0x6f, 0x62] = none :=
    decodeAddress_short sha256 zeroStack (by decide)
  obtain ⟨e, enc, he, hok⟩ := exists_of_any_ok (o := encodeTransfer sha256 softwareKey zeroStack
    sampleChain 1024 (sampleAccount false) [0x62, 0x6f, 0x62] (some [1])) (by decide +kernel)
  have htrue : e.ok = true := by rw [Encoding.ok, hok]; rfl
  refine ⟨hnone, e, he, htrue, ?_⟩
  rw [RespectsRecipient, hnone, htrue]
  rintro ⟨hfalse, -⟩
  cases hfalse

/-- A real address decodes, and its first byte is not zero. -/
example : (decodeAddress sha256 zeroStack sampleAddress).any (fun r => r[0] ≠ 0) = true := by
  decide +kernel

end Libaergo
