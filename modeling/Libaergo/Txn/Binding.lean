import Libaergo.Txn.Recipient

/-!
# What a signature binds

`calculate_tx_hash` concatenates the fields of a transaction without lengths or separators.  The fields
in front of the recipient and behind the payload have fixed widths, so the type is always found, and the
type says how what is between them divides: a transfer has a recipient and no payload, a contract call a
recipient and an amount of one byte, a multicall no recipient and the same amount.
-/

namespace Libaergo

open Lib

/-! ### The fields at both ends -/

/-- What stands between the fields of fixed width. -/
def Txn.middle (txn : Txn) : Bytes := txn.recipientBytes ++ (txn.amount ++ txn.payload.getD [])

def Txn.tail (txn : Txn) : Bytes :=
  leBytes 8 txn.gasLimit.toNat ++ ((leBytes 8 txn.gasPrice.toNat).take 1 ++
    (leBytes 4 txn.type.toNat ++ txn.chainIdHash.toList))

lemma preimage_eq_middle (txn : Txn) :
    preimage txn false =
      (leBytes 8 txn.nonce.toNat ++ txn.account.toList) ++ (txn.middle ++ txn.tail) := by
  simp [preimage, Txn.middle, Txn.tail, List.append_assoc]

@[simp] lemma Txn.tail_length (txn : Txn) : txn.tail.length = 45 := by simp [Txn.tail]

lemma leBytes_inj {k n m : ℕ} (hn : n < 256 ^ k) (hm : m < 256 ^ k) (h : leBytes k n = leBytes k m) :
    n = m := by
  have h' := congrArg leNat h
  rwa [leNat_leBytes, leNat_leBytes, Nat.mod_eq_of_lt hn, Nat.mod_eq_of_lt hm] at h'

/-- **The fields of fixed width are told apart by the preimage**, and so is what stands between them. -/
theorem preimage_ends {txn txn' : Txn} (h : preimage txn false = preimage txn' false) :
    txn.nonce = txn'.nonce ∧ txn.account = txn'.account ∧ txn.type = txn'.type ∧
      txn.chainIdHash = txn'.chainIdHash ∧ txn.middle = txn'.middle := by
  rw [preimage_eq_middle, preimage_eq_middle] at h
  obtain ⟨hfirst, hrest⟩ := List.append_inj h (by simp)
  obtain ⟨hnonce, haccount⟩ := List.append_inj hfirst (by simp)
  obtain ⟨hmiddle, htail⟩ := List.append_inj' hrest (by simp)
  obtain ⟨-, htail⟩ := List.append_inj htail (by simp)
  obtain ⟨-, htail⟩ := List.append_inj htail (by simp)
  obtain ⟨htype, hchain⟩ := List.append_inj htail (by simp)
  refine ⟨?_, Vector.toList_inj.mp haccount, ?_, Vector.toList_inj.mp hchain, hmiddle⟩
  · exact UInt64.toNat_inj.mp (leBytes_inj txn.nonce.toNat_lt txn'.nonce.toNat_lt hnonce)
  · exact UInt32.toNat_inj.mp (leBytes_inj txn.type.toNat_lt txn'.type.toNat_lt htype)

/-! ### The division of the middle -/

/-- The call names a recipient, where it takes one. -/
def EncodeCall.NamesRecipient (sha256 : Bytes → Hash) (stack : ℕ → UInt8) (c : EncodeCall) : Prop :=
  ∀ str ∈ c.recipientText, DecodesNonzero sha256 stack str

section Binding

variable {sha256 : Bytes → Hash} {stack stack' : ℕ → UInt8} {chain chain' : Hash}
  {account account' : Account} {c c' : EncodeCall}

lemma EncodeCall.recipientBytes_eq {str : Bytes} (hstr : c.recipientText = some str)
    (h : c.NamesRecipient sha256 stack) :
    (c.txn sha256 stack chain account).recipientBytes =
      (c.txn sha256 stack chain account).recipient.toList := by
  obtain ⟨r, hr, h0⟩ := h str hstr
  have hrec : (c.txn sha256 stack chain account).recipient = r := by
    rw [EncodeCall.txn_recipient hstr, decodeInto, hr, Option.getD_some]
  rw [Txn.recipientBytes, if_pos]
  rw [Txn.hasRecipient, hrec]
  exact h0

lemma recipientBytes_multiCall (payload : Bytes) :
    (multiCallTxn chain account payload).recipientBytes = [] := by
  rw [Txn.recipientBytes, if_neg]
  simp [Txn.hasRecipient, multiCallTxn]

/-- `txn.type` -/
def EncodeCall.txType : EncodeCall → UInt32
  | .transfer _ _ => txTypeTransfer
  | .contractCall _ _ => txTypeCall
  | .multiCall _ => txTypeMulticall

lemma EncodeCall.txn_type : (c.txn sha256 stack chain account).type = c.txType := by
  cases c <;> rfl

lemma txTypes_distinct :
    txTypeTransfer ≠ txTypeCall ∧ txTypeTransfer ≠ txTypeMulticall ∧ txTypeCall ≠ txTypeMulticall := by
  decide

/-- **The preimage binds the transaction.**  Two calls that name their recipients and have the same
preimage build the same transaction, field by field. -/
theorem EncodeCall.preimage_binds {txn txn' : Txn} (ht : c.txn sha256 stack chain account = txn)
    (ht' : c'.txn sha256 stack' chain' account' = txn') (hc : c.NamesRecipient sha256 stack)
    (hc' : c'.NamesRecipient sha256 stack') (h : preimage txn false = preimage txn' false) :
    txn.type = txn'.type ∧ txn.nonce = txn'.nonce ∧ txn.account = txn'.account ∧
      txn.recipientBytes = txn'.recipientBytes ∧ txn.recipient = txn'.recipient ∧
      txn.amount = txn'.amount ∧ txn.payload = txn'.payload ∧
      txn.chainIdHash = txn'.chainIdHash := by
  subst ht ht'
  obtain ⟨hnonce, haccount, htype, hchain, hmiddle⟩ := preimage_ends h
  have hkind : c.txType = c'.txType := by rwa [txn_type, txn_type] at htype
  obtain ⟨hcall, hmulti, hmulti'⟩ := txTypes_distinct
  unfold Txn.middle at hmiddle
  cases c with
  | transfer recipient amount =>
    cases c' with
    | transfer recipient' amount' =>
      rw [recipientBytes_eq rfl hc, recipientBytes_eq rfl hc'] at hmiddle ⊢
      obtain ⟨hrec, hamount⟩ := List.append_inj hmiddle (by simp)
      exact ⟨htype, hnonce, haccount, hrec, Vector.toList_inj.mp hrec,
        List.append_cancel_right hamount, rfl, hchain⟩
    | contractCall _ _ => exact absurd hkind hcall
    | multiCall _ => exact absurd hkind hmulti
  | contractCall address info =>
    cases c' with
    | transfer _ _ => exact absurd hkind hcall.symm
    | contractCall address' info' =>
      rw [recipientBytes_eq rfl hc, recipientBytes_eq rfl hc'] at hmiddle ⊢
      obtain ⟨hrec, hrest⟩ := List.append_inj hmiddle (by simp)
      obtain ⟨hamount, hpayload⟩ := List.append_inj hrest rfl
      exact ⟨htype, hnonce, haccount, hrec, Vector.toList_inj.mp hrec, hamount,
        congrArg some hpayload, hchain⟩
    | multiCall _ => exact absurd hkind hmulti'
  | multiCall payload =>
    cases c' with
    | transfer _ _ => exact absurd hkind hmulti.symm
    | contractCall _ _ => exact absurd hkind hmulti'.symm
    | multiCall payload' =>
      have hnone : ((EncodeCall.multiCall payload).txn sha256 stack chain account).recipientBytes = [] :=
        recipientBytes_multiCall payload
      have hnone' :
          ((EncodeCall.multiCall payload').txn sha256 stack' chain' account').recipientBytes = [] :=
        recipientBytes_multiCall payload'
      rw [hnone, hnone', List.nil_append, List.nil_append] at hmiddle
      obtain ⟨hamount, hpayload⟩ := List.append_inj hmiddle rfl
      exact ⟨htype, hnonce, haccount, hnone.trans hnone'.symm, rfl, hamount,
        congrArg some hpayload, hchain⟩

end Binding

lemma decodesNonzero_of_any {sha256 : Bytes → Hash} {stack : ℕ → UInt8} {str : Bytes}
    (h : (decodeAddress sha256 stack str).any (fun r => getElem r 0 Address.pos != 0) = true) :
    DecodesNonzero sha256 stack str := by
  obtain ⟨r, hr, h0⟩ := (Option.any_eq_true _ _).mp h
  exact ⟨r, hr, by simpa using h0⟩

/-- The same transfer with a software key and with a Ledger. -/
theorem EncodeCall.preimage_binds_transfer :
    ∃ txn txn' : Txn, preimage txn false = preimage txn' false ∧
      txn.type = txn'.type ∧ txn.nonce = txn'.nonce ∧ txn.account = txn'.account ∧
      txn.recipientBytes = txn'.recipientBytes ∧ txn.recipient = txn'.recipient ∧
      txn.amount = txn'.amount ∧ txn.payload = txn'.payload ∧
      txn.chainIdHash = txn'.chainIdHash := by
  have hnames : (EncodeCall.transfer sampleAddress (some [1])).NamesRecipient Libaergo.sha256
      zeroStack := by
    rintro str ⟨⟩
    exact decodesNonzero_of_any (by decide +kernel)
  have h : ∀ l : Bool, preimage ((EncodeCall.transfer sampleAddress (some [1])).txn Libaergo.sha256
        zeroStack sampleChain (sampleAccount l)) false =
      preimage ((EncodeCall.transfer sampleAddress (some [1])).txn Libaergo.sha256 zeroStack
        sampleChain (sampleAccount false)) false := fun _ => rfl
  exact ⟨_, _, h true, EncodeCall.preimage_binds rfl rfl hnames hnames (h true)⟩

end Libaergo
