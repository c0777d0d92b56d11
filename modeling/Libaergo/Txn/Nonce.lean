import Libaergo.Txn.Calls

/-!
# The nonces of an account

Each encoder increments `account->nonce` before it signs and encodes, and no failure path takes the
increment back.  A sequence of calls on one account sends the nonces `N + 1`, `N + 2`, … without a gap,
and leaves the nonce alone when it fails, exactly when no call fails after the increment.
-/

namespace Libaergo

open Lib

/-- A call on an account, with what it finds: the signer, the chain id and the output buffer. -/
structure NonceCall where
  D : Devices
  sized : D.Sized
  stack : ℕ → UInt8
  blockchainIdHash : Hash
  psize : ℕ
  call : EncodeCall

/-- The nonce a reader finds in the message that was sent. -/
def Encoding.sentNonce (e : Encoding) : Option ℕ := e.sentBody.map TxBody.nonce

/-- The nonces of the transactions that were sent. -/
def sentNonces (es : List Encoding) : List ℕ := es.filterMap Encoding.sentNonce

def successors : UInt64 → ℕ → List ℕ
  | _, 0 => []
  | n, k + 1 => (n + 1).toNat :: successors (n + 1) k

/-- Every call that failed left the nonce as it was before it. -/
def Unmoved : Account → List Encoding → Prop
  | _, [] => True
  | account, e :: es => (e.ok = false → e.account.nonce = account.nonce) ∧ Unmoved e.account es

/-- What is expected of a sequence of calls on an account. -/
structure GapFree (account : Account) (es : List Encoding) : Prop where
  sent : sentNonces es = successors account.nonce (sentNonces es).length
  failed : Unmoved account es

section Sequence

variable (sha256 : Bytes → Hash)

def NonceCall.encode (account : Account) (c : NonceCall) : Option Encoding :=
  c.call.run sha256 c.D c.stack c.blockchainIdHash c.psize account

def encodeAll : Account → List NonceCall → Option (List Encoding)
  | _, [] => some []
  | account, c :: cs =>
    (c.encode sha256 account).bind fun e => (encodeAll e.account cs).map (e :: ·)

/-- The account after the call, whatever its outcome. -/
def NonceCall.next (account : Account) (c : NonceCall) : Account :=
  if c.call.Refused then account else account.bump

/-- The call is refused before the increment, or nothing after it can fail: the signer answers, and
what it signed fits the buffers. -/
def NonceCall.Good (account : Account) (c : NonceCall) : Prop :=
  c.call.Refused ∨
    let txn := c.call.txn sha256 c.stack c.blockchainIdHash account.bump
    ∃ sign, Signs sha256 c.D account.bump txn sign ∧ Fits sha256 c.psize { txn with sign := sign }

/-- Every call of the sequence is good when its turn comes. -/
def AllGood : Account → List NonceCall → Prop
  | _, [] => True
  | account, c :: cs => c.Good sha256 account ∧ AllGood (c.next account) cs

variable {sha256} {account : Account} {c : NonceCall} {e : Encoding}

lemma NonceCall.encode_account (h : c.encode sha256 account = some e) :
    e.account = c.next account := by
  rw [NonceCall.encode, EncodeCall.run_eq] at h
  unfold NonceCall.next
  split at h
  case isTrue hr =>
    obtain rfl := Option.some.inj h
    rw [if_pos hr]
  case isFalse hr =>
    rw [if_neg hr]
    exact signAndEncode_account h

lemma NonceCall.good_iff (h : c.encode sha256 account = some e) :
    c.Good sha256 account ↔ (c.call.Refused ∨ e.ok = true) := by
  rw [NonceCall.encode, EncodeCall.run_eq] at h
  unfold NonceCall.Good
  by_cases hr : c.call.Refused
  · simp [hr]
  · rw [if_neg hr] at h
    simp only [hr, false_or]
    rw [← signAndEncode_ok_iff c.sized (EncodeCall.txn_sign ..)]
    constructor
    · rintro ⟨e', enc, h', hok⟩
      obtain rfl : e' = e := by simpa [h] using h'.symm
      rw [Encoding.ok, hok]
      rfl
    · intro hok
      cases hres : e.result with
      | error error =>
        rw [Encoding.ok, hres] at hok
        cases hok
      | ok enc => exact ⟨e, enc, h, hres⟩

lemma NonceCall.sentNonce_of_ok (h : c.encode sha256 account = some e) (hok : e.ok = true) :
    e.sentNonce = some (account.nonce + 1).toNat := by
  cases hres : e.result with
  | error error =>
    rw [Encoding.ok, hres] at hok
    cases hok
  | ok enc =>
    obtain ⟨sign, txn, tx, htxn, htx, hbody, -⟩ := EncodeCall.read c.sized h hres
    have hnonce : txn.toBody.nonce = (account.nonce + 1).toNat := by
      rw [htxn]
      exact congrArg UInt64.toNat (EncodeCall.txn_nonce ..)
    rw [Encoding.sentNonce, Encoding.sentBody_eq hres htx hbody, Option.map_some, hnonce]

lemma sentNonce_of_failed (h : e.ok = false) : e.sentNonce = none := by
  cases hres : e.result with
  | error error => simp [Encoding.sentNonce, Encoding.sentBody, hres, Except.toOption]
  | ok enc =>
    rw [Encoding.ok, hres] at h
    cases h

lemma bump_nonce_ne (account : Account) : account.bump.nonce ≠ account.nonce := by
  intro h
  have h1 : account.nonce + 1 = account.nonce := h
  have h2 := congrArg UInt64.toNat h1
  rw [UInt64.toNat_add] at h2
  have h3 := account.nonce.toNat_lt
  have h4 : (1 : UInt64).toNat = 1 := rfl
  omega

lemma NonceCall.good_of_unmoved (h : c.encode sha256 account = some e)
    (hmove : e.ok = false → e.account.nonce = account.nonce) : c.Good sha256 account := by
  rw [NonceCall.good_iff h]
  by_cases hr : c.call.Refused
  · exact .inl hr
  · refine .inr (Bool.eq_true_of_not_eq_false fun hfail => ?_)
    have hmoved := hmove hfail
    rw [NonceCall.encode_account h, NonceCall.next, if_neg hr] at hmoved
    exact bump_nonce_ne account hmoved

lemma NonceCall.refused (h : c.encode sha256 account = some e) (hr : c.call.Refused) :
    e = ⟨account, none, .error none⟩ := by
  rw [NonceCall.encode, EncodeCall.run_eq, if_pos hr] at h
  exact (Option.some.inj h).symm

lemma gapFree_of_allGood {cs : List NonceCall} :
    ∀ {account : Account} {es : List Encoding}, encodeAll sha256 account cs = some es →
      AllGood sha256 account cs → GapFree account es := by
  induction cs with
  | nil =>
    intro account es h _
    obtain rfl := Option.some.inj h
    exact ⟨rfl, trivial⟩
  | cons c cs ih =>
    intro account es h hgood
    obtain ⟨e, he, h⟩ := Option.bind_eq_some_iff.mp h
    obtain ⟨es, hes, rfl⟩ := Option.map_eq_some_iff.mp h
    obtain ⟨hc, hcs⟩ := hgood
    have hacc := NonceCall.encode_account he
    rw [← hacc] at hcs
    obtain ⟨hsent, hfailed⟩ := ih hes hcs
    by_cases hr : c.call.Refused
    · -- nothing sent, nothing moved
      have hrefused := NonceCall.refused he hr
      have hnone : e.sentNonce = none := sentNonce_of_failed (by rw [hrefused]; rfl)
      have hsame : e.account = account := by rw [hrefused]
      refine ⟨?_, fun _ => by rw [hsame], hfailed⟩
      rw [sentNonces, List.filterMap_cons_none hnone, ← hsame]
      exact hsent
    · -- one nonce sent, the next one of the account
      have hok : e.ok = true := ((NonceCall.good_iff he).mp hc).resolve_left hr
      have hsome := NonceCall.sentNonce_of_ok he hok
      have hnext : e.account.nonce = account.nonce + 1 := by
        rw [hacc, NonceCall.next, if_neg hr]
        rfl
      refine ⟨?_, fun hfail => by simp [hok] at hfail, hfailed⟩
      rw [sentNonces, List.filterMap_cons_some hsome, List.length_cons, successors, ← hnext]
      exact congrArg _ hsent

/-- What is known of the calls when failures leave the nonce alone. -/
lemma allGood_of_unmoved {cs : List NonceCall} :
    ∀ {account : Account} {es : List Encoding}, encodeAll sha256 account cs = some es →
      Unmoved account es → AllGood sha256 account cs := by
  induction cs with
  | nil => intro account es _ _; trivial
  | cons c cs ih =>
    intro account es h hmove
    obtain ⟨e, he, h⟩ := Option.bind_eq_some_iff.mp h
    obtain ⟨es, hes, rfl⟩ := Option.map_eq_some_iff.mp h
    obtain ⟨hfirst, hrest⟩ := hmove
    refine ⟨NonceCall.good_of_unmoved he hfirst, ?_⟩
    rw [← NonceCall.encode_account he]
    exact ih hes hrest

/-- **A sequence of calls is gap-free exactly when no call fails after the increment.** -/
theorem gapFree_iff {cs : List NonceCall} {es : List Encoding}
    (h : encodeAll sha256 account cs = some es) :
    GapFree account es ↔ AllGood sha256 account cs :=
  ⟨fun hgap => allGood_of_unmoved h hgap.failed, gapFree_of_allGood h⟩

end Sequence

/-- A transfer of one unit to a real address with one of the sample devices. -/
def sampleTransfer {D : Devices} (hD : D.Sized) : NonceCall where
  D := D
  sized := hD
  stack := zeroStack
  blockchainIdHash := sampleChain
  psize := 1024
  call := .transfer sampleAddress (some [1])

/-- Two transfers that succeed. -/
theorem gapFree_two_transfers :
    ∃ es, encodeAll sha256 (sampleAccount true)
        [sampleTransfer ledgerDevice_sized, sampleTransfer ledgerDevice_sized] = some es ∧
      sentNonces es = [8, 9] ∧
      (GapFree (sampleAccount true) es ↔ AllGood sha256 (sampleAccount true)
        [sampleTransfer ledgerDevice_sized, sampleTransfer ledgerDevice_sized]) := by
  have h : (encodeAll sha256 (sampleAccount true)
      [sampleTransfer ledgerDevice_sized, sampleTransfer ledgerDevice_sized]).map sentNonces =
        some [8, 9] := by decide +kernel
  obtain ⟨es, hes, hsent⟩ := Option.map_eq_some_iff.mp h
  exact ⟨es, hes, hsent, gapFree_iff hes⟩

/-- **A refusal on the Ledger leaves a gap**: the account has the nonce 7, the next transaction that is
sent the nonce 9. -/
theorem refused_transfer_leaves_gap :
    ∃ es, encodeAll sha256 (sampleAccount true)
        [sampleTransfer refusingLedger_sized, sampleTransfer ledgerDevice_sized] = some es ∧
      es.map Encoding.ok = [false, true] ∧ sentNonces es = [9] ∧
      ¬ GapFree (sampleAccount true) es := by
  have h : (encodeAll sha256 (sampleAccount true)
      [sampleTransfer refusingLedger_sized, sampleTransfer ledgerDevice_sized]).map
        (fun es => (es.map Encoding.ok, sentNonces es)) = some ([false, true], [9]) := by
    decide +kernel
  obtain ⟨es, hes, hboth⟩ := Option.map_eq_some_iff.mp h
  obtain ⟨hok, hsent⟩ := Prod.mk.inj hboth
  refine ⟨es, hes, hok, hsent, fun hgap => ?_⟩
  have hnonces := hgap.sent
  rw [hsent] at hnonces
  exact absurd hnonces (by decide)

end Libaergo
