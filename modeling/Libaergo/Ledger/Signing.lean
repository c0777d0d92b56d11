import Libaergo.Ledger.Apdu
import Libaergo.Txn.Calls

/-!
# Signatures of the Ledger (`ledger.c`)

The response of the device to a transaction is its hash, of 32 bytes, and the signature.
`ledger_sign_transaction` copies what is behind the 32 bytes, as many bytes as the length says, before it looks
at the status word, and never compares the length with the size of the caller's buffer.
-/

namespace Libaergo.Ledger

open Lib

/-! ### The functions -/

/-- `%.4x` -/
def hex4 (n : ℕ) : String := String.ofList (List.leftpad 4 '0' (Nat.toDigits 16 n))

/-- `strcpy(error, …)` where there is no text yet. -/
def setError (error text : String) : String := if error = "" then text else error

/-- `check_ledger_result`: its result, and the text in `error`. -/
def checkLedgerResult (result sw : ℤ) (error : String) : Bool × String :=
  if result = -1 ∧ sw = -1 then (false, setError error "No dongle found or application not open")
  else if result < 0 then (false, setError error "I/O error or library not found")
  else if sw ≠ swOk.toNat then (false, setError error ("Dongle application error : " ++ hex4 sw.toNat))
  else (true, error)

/-- What `ledger_sign_transaction` leaves: its result, the third argument of the `memcpy` if there was one,
`*psigsize`, the bytes that were copied, and the text in `error`. -/
structure Signed where
  value : Bool
  copied : Option ℤ
  psigsize : ℤ
  sig : Bytes
  error : String
  deriving DecidableEq

/-- What `ledger_sign_transaction` does behind `ledger_send_apdu`. -/
def takeSignature (psigsize : ℤ) (error : String) (e : Exchange) : Signed :=
  let checked := checkLedgerResult e.result e.sw error
  if 0 < e.result then
    ⟨checked.1, some (e.result - 32), e.result - 32, (e.out.drop 32).take (e.result - 32).toNat, checked.2⟩
  else ⟨checked.1, none, psigsize, [], checked.2⟩

/-- **`ledger_sign_transaction`** -/
def ledgerSignTransaction (D : Dongle) (txn : Bytes) (psigsize : ℤ) (k : ℕ) : Option Signed :=
  (ledgerSendApdu D 0xAE 0x04 0 txn k).map (takeSignature psigsize D.initError)

/-- **The signature stays in its buffer of 80 bytes**, and the caller who is told true has one. -/
structure Signed.Bounded (s : Signed) : Prop where
  inside : ∀ n ∈ s.copied, 0 ≤ n ∧ n ≤ 80
  length : s.value = true → 1 ≤ s.psigsize ∧ s.psigsize ≤ 80

/-! ### The device -/

/-- A device with these replies, one after the other. -/
def Dongle.answering (replies : ℕ → Reply) : Dongle where
  init := 0
  initError := ""
  found := true
  send sent := replies (sent.length - 1)

def Reply.Ends : Reply → Prop
  | .failed _ _ => True
  | .response data sw => sw ≠ swRestart ∧ (sw = swOk → data ≠ [])

/-- The reply has no data, or a hash and a signature of 80 bytes at most, which is not empty if the reply is a
success. -/
def Reply.Fits : Reply → Prop
  | .failed _ _ => True
  | .response data sw => data = [] ∨ 32 ≤ data.length ∧ data.length ≤ 112 ∧ (sw = swOk → data.length ≠ 32)

def Reply.Left : Reply → Exchange → Prop
  | .failed result _, e => e.result = result
  | .response data sw, e => e.result = data.length ∧ e.sw = sw.toNat ∧ e.out = data

lemma Reply.not_ends {r : Reply} (h : ¬ r.Ends) : (∃ out, r = .response out swRestart) ∨ r = .response [] swOk := by
  cases r with
  | failed result hneg => exact absurd trivial h
  | response data sw =>
    by_cases hrestart : sw = swRestart
    · exact .inl ⟨data, by rw [hrestart]⟩
    · have hok : sw = swOk ∧ data = [] := by
        by_contra hnot
        exact h ⟨hrestart, fun hsw hdata => hnot ⟨hsw, hdata⟩⟩
      exact .inr (by rw [hok.1, hok.2])

section Exchange

variable {replies : ℕ → Reply} {n : ℕ} {apduCla apduIns apduP1 : UInt8} {data : Bytes} {e : Exchange}

/-- The inner loop ends with a reply that lets the exchange go on, or with the one that ends it. -/
lemma sendChunks_answering (apduCla apduIns apduP1 : UInt8) (data : Bytes)
    (hbefore : ∀ m < n, ¬ (replies m).Ends) (hend : (replies n).Ends)
    (hlen : e.sent.length ≤ n) (hresult : e.result = 0) :
    ∃ left, (∀ k > data.length - e.offset,
        sendChunks (.answering replies) apduCla apduIns apduP1 data k e = some left) ∧
      ((∃ e', left = .loop e' ∧ e'.result = 0 ∧ e'.sent.length ≤ n ∧ e.sent.length ≤ e'.sent.length ∧
          (e.offset < data.length → e.sent.length < e'.sent.length)) ∨
        ∃ e', (left = .loop e' ∧ e'.result ≠ 0 ∨ left = .exit e') ∧ (replies n).Left e') := by
  generalize hm : data.length - e.offset = m
  induction m using Nat.strong_induction_on generalizing e with
  | _ m ih =>
    by_cases hlt : e.offset < data.length
    · have hpos := chunkLength_pos hlt
      have hsend : (Dongle.answering replies).send (e.sent ++ [packet apduCla apduIns apduP1 data e.offset]) =
          replies e.sent.length := by simp [Dongle.answering]
      have hsucc : ∀ {k}, k > m → ∃ j, k = j + 1 := fun hk => Nat.exists_eq_add_one.mpr (Nat.zero_lt_of_lt hk)
      rcases hlen.lt_or_eq with hlen | rfl
      -- the exchange goes on
      · rcases Reply.not_ends (hbefore _ hlen) with ⟨out, hreply⟩ | hreply
        · refine ⟨_, fun k hk => ?_, .inl ⟨⟨e.sent ++ [packet apduCla apduIns apduP1 data e.offset], e.offset, 0,
            swRestart.toNat, out⟩, rfl, rfl, ?_, ?_, fun _ => ?_⟩⟩
          · obtain ⟨k, rfl⟩ := hsucc hk
            exact sendChunks_restart hlt (hsend.trans hreply) k
          · simpa using Nat.succ_le_of_lt hlen
          · simp
          · simp
        · have hless : data.length - (e.offset + chunkLength data e.offset) < m := by omega
          obtain ⟨left, hrun, hleft⟩ := ih _ hless
            (e := ⟨e.sent ++ [packet apduCla apduIns apduP1 data e.offset], e.offset + chunkLength data e.offset, 0,
              swOk.toNat, []⟩) (by simpa using Nat.succ_le_of_lt hlen) rfl rfl
          refine ⟨left, fun k hk => ?_, hleft.imp_left ?_⟩
          · obtain ⟨k, rfl⟩ := hsucc hk
            rw [sendChunks_more hlt (hsend.trans hreply)]
            exact hrun k (hless.trans_le (Nat.le_of_lt_succ hk))
          · rintro ⟨e', hloop, hresult', hle, hsent, -⟩
            rw [List.length_append, List.length_singleton] at hsent
            exact ⟨e', hloop, hresult', hle, (Nat.le_succ _).trans hsent, fun _ => hsent⟩
      -- this is its last reply
      · cases hreply : replies e.sent.length with
        | failed result hneg =>
          refine ⟨_, fun k hk => ?_, .inr ⟨⟨e.sent ++ [packet apduCla apduIns apduP1 data e.offset], e.offset,
            result, e.sw, e.out⟩, .inr rfl, rfl⟩⟩
          obtain ⟨k, rfl⟩ := hsucc hk
          exact sendChunks_failed hlt hneg (hsend.trans hreply) k
        | response out sw =>
          rw [hreply] at hend
          by_cases hok : sw = swOk
          · subst hok
            have hout : out ≠ [] := hend.2 rfl
            refine ⟨_, fun k hk => ?_, .inr ⟨⟨e.sent ++ [packet apduCla apduIns apduP1 data e.offset], e.offset,
              out.length, swOk.toNat, out⟩, .inl ⟨rfl, ?_⟩, rfl, rfl, rfl⟩⟩
            · obtain ⟨k, rfl⟩ := hsucc hk
              exact sendChunks_answered hlt hout (hsend.trans hreply) k
            · exact Int.natCast_ne_zero.mpr (List.length_pos_of_ne_nil hout).ne'
          · refine ⟨_, fun k hk => ?_, .inr ⟨⟨e.sent ++ [packet apduCla apduIns apduP1 data e.offset], e.offset,
              out.length, sw.toNat, out⟩, .inr rfl, rfl, rfl, rfl⟩⟩
            obtain ⟨k, rfl⟩ := hsucc hk
            exact sendChunks_refused hlt hend.1 hok (hsend.trans hreply) k
    · refine ⟨.loop e, fun k hk => ?_, .inl ⟨e, rfl, hresult, hlen, le_rfl, fun h => absurd h hlt⟩⟩
      obtain ⟨k, rfl⟩ := Nat.exists_eq_add_one.mpr (Nat.zero_lt_of_lt hk)
      rw [sendChunks, if_neg hlt]

lemma sendAll_answering (apduCla apduIns apduP1 : UInt8) (hne : data ≠ [])
    (hbefore : ∀ m < n, ¬ (replies m).Ends) (hend : (replies n).Ends)
    (hlen : e.sent.length ≤ n) (hresult : e.result = 0) :
    ∃ N e', (∀ i ≥ N, ∀ k > data.length,
      sendAll (.answering replies) apduCla apduIns apduP1 data k i e = some e') ∧ (replies n).Left e' := by
  generalize hm : n - e.sent.length = m
  induction m using Nat.strong_induction_on generalizing e with
  | _ m ih =>
    have hpos : 0 < data.length := List.length_pos_of_ne_nil hne
    have hlen₀ : ({ e with offset := 0 } : Exchange).sent.length ≤ n := hlen
    obtain ⟨left, hrun, hleft⟩ := sendChunks_answering apduCla apduIns apduP1 data hbefore hend hlen₀ hresult
    rcases hleft with ⟨e', rfl, hresult', hlen', -, hmore⟩ | ⟨e', hleft, hend'⟩
    · have hless : n - e'.sent.length < m := by
        have hgrown := hmore hpos
        dsimp only at hgrown
        omega
      obtain ⟨N, e'', hall, hend''⟩ := ih _ hless hlen' hresult' rfl
      refine ⟨N + 1, e'', fun i hi k hk => ?_, hend''⟩
      obtain ⟨i, rfl⟩ := Nat.exists_eq_add_one.mpr (Nat.zero_lt_of_lt hi)
      rw [sendAll, if_pos hresult, hrun k hk]
      exact hall i (Nat.le_of_succ_le_succ hi) k hk
    · refine ⟨2, e', fun i hi k hk => ?_, hend'⟩
      obtain ⟨i, rfl⟩ := Nat.exists_eq_add_of_le' hi
      rw [sendAll, if_pos hresult, hrun k hk]
      rcases hleft with ⟨rfl, hresult'⟩ | rfl
      · exact (sendAll.eq_2 ..).trans (if_neg hresult')
      · rfl

end Exchange

/-! ### The signature -/

section Signature

variable {replies : ℕ → Reply} {n : ℕ} {txn : Bytes} {e : Exchange}

lemma checkLedgerResult_eq_true {result sw : ℤ} {error : String} :
    (checkLedgerResult result sw error).1 = true ↔ 0 ≤ result ∧ sw = swOk.toNat := by
  unfold checkLedgerResult
  split
  · next h => exact iff_of_false Bool.false_ne_true (by omega)
  · split
    · next h => exact iff_of_false Bool.false_ne_true (by omega)
    · next h =>
      split
      · next hsw => exact iff_of_false Bool.false_ne_true fun h => hsw h.2
      · next hsw => exact iff_of_true rfl ⟨not_lt.mp h, not_not.mp hsw⟩

lemma takeSignature_value : (takeSignature 80 "" e).value = true ↔ 0 ≤ e.result ∧ e.sw = swOk.toNat := by
  unfold takeSignature
  dsimp only
  split <;> exact checkLedgerResult_eq_true

/-- **The signature stays in its buffer if and only if the last reply fits it.** -/
lemma takeSignature_bounded_iff {r : Reply} (hend : r.Ends) (h : r.Left e) :
    (takeSignature 80 "" e).Bounded ↔ r.Fits := by
  cases r with
  | failed result hneg =>
    obtain rfl : e.result = result := h
    have hnone : (takeSignature 80 "" e).copied = none := by
      unfold takeSignature
      rw [if_neg hneg.not_gt]
    refine iff_of_true ⟨fun m hm => ?_, fun hvalue => ?_⟩ trivial
    · rw [hnone] at hm
      cases hm
    · exact absurd (takeSignature_value.mp hvalue).1 hneg.not_ge
  | response data sw =>
    obtain ⟨hresult, hsw, -⟩ := h
    have hvalue : (takeSignature 80 "" e).value = true ↔ sw = swOk := by
      rw [takeSignature_value, hresult, hsw, Int.natCast_inj, UInt16.toNat_inj]
      exact and_iff_right (Int.natCast_nonneg _)
    by_cases hdata : data = []
    · have hnone : (takeSignature 80 "" e).copied = none := by
        unfold takeSignature
        rw [hresult, hdata, if_neg (by simp)]
      refine iff_of_true ⟨fun m hm => ?_, fun htrue => ?_⟩ (.inl hdata)
      · rw [hnone] at hm
        cases hm
      · exact absurd hdata (hend.2 (hvalue.mp htrue))
    · have hpos : 0 < data.length := List.length_pos_of_ne_nil hdata
      have hsome : (takeSignature 80 "" e).copied = some ((data.length : ℤ) - 32) ∧
          (takeSignature 80 "" e).psigsize = (data.length : ℤ) - 32 := by
        unfold takeSignature
        rw [hresult, if_pos (by exact_mod_cast hpos)]
        exact ⟨rfl, rfl⟩
      constructor
      · rintro ⟨hinside, hlength⟩
        obtain ⟨hlow, hhigh⟩ := hinside _ hsome.1
        refine .inr ⟨by omega, by omega, fun hok => ?_⟩
        have hone := (hlength (hvalue.mpr hok)).1
        rw [hsome.2] at hone
        omega
      · rintro (hnil | ⟨hlow, hhigh, hne⟩)
        · exact absurd hnil hdata
        · refine ⟨fun m hm => ?_, fun htrue => ?_⟩
          · rw [hsome.1] at hm
            obtain rfl := Option.some.inj hm
            omega
          · have hne' := hne (hvalue.mp htrue)
            rw [hsome.2]
            omega

lemma takeSignature_sig_length {r : Reply} (hend : r.Ends) (h : r.Left e)
    (hvalue : (takeSignature 80 "" e).value = true) (hlow : 0 ≤ (takeSignature 80 "" e).psigsize) :
    ((takeSignature 80 "" e).sig.length : ℤ) = (takeSignature 80 "" e).psigsize := by
  obtain ⟨hresult, hsw⟩ := takeSignature_value.mp hvalue
  cases r with
  | failed result hneg =>
    obtain rfl : e.result = result := h
    exact absurd hresult hneg.not_ge
  | response data sw =>
    obtain ⟨hlen, hsw', hout⟩ := h
    rw [hsw', Int.natCast_inj, UInt16.toNat_inj] at hsw
    have hpos : 0 < e.result := by
      rw [hlen]
      exact_mod_cast List.length_pos_of_ne_nil (hend.2 hsw)
    unfold takeSignature at hlow ⊢
    rw [if_pos hpos] at hlow ⊢
    dsimp only at hlow ⊢
    rw [hout, List.length_take, List.length_drop]
    omega

/-- The function returns, and its result is made of the first reply that ends the exchange. -/
lemma ledgerSendApdu_answering (hne : txn ≠ []) (hbefore : ∀ m < n, ¬ (replies m).Ends) (hend : (replies n).Ends) :
    ∃ K e, (∀ k ≥ K, ledgerSendApdu (.answering replies) 0xAE 0x04 0 txn k = some e) ∧ (replies n).Left e := by
  have hlen : (⟨[], 0, 0, 0, []⟩ : Exchange).sent.length ≤ n := Nat.zero_le _
  obtain ⟨N, e, hrun, hleft⟩ := sendAll_answering 0xAE 0x04 0 hne hbefore hend hlen rfl
  refine ⟨max N (txn.length + 1), e, fun k hk => ?_, hleft⟩
  rw [ledgerSendApdu_found rfl rfl]
  exact hrun k ((le_max_left _ _).trans hk) k (Nat.lt_of_succ_le ((le_max_right _ _).trans hk))

/-- **`ledger_sign_transaction` keeps to the caller's buffer if and only if the reply that ends the exchange has no
data, or 32 to 112 bytes, and more than 32 when it is a success.** -/
theorem signatureBounded_iff (replies : ℕ → Reply) {n : ℕ} {txn : Bytes} (hne : txn ≠ [])
    (_hlt : txn.length < 2 ^ 31) (hbefore : ∀ m < n, ¬ (replies m).Ends) (hend : (replies n).Ends) :
    ∃ K signed, (∀ k ≥ K, ledgerSignTransaction (.answering replies) txn 80 k = some signed) ∧
      (signed.Bounded ↔ (replies n).Fits) := by
  obtain ⟨K, e, hrun, hleft⟩ := ledgerSendApdu_answering hne hbefore hend
  refine ⟨K, takeSignature 80 "" e, fun k hk => ?_, takeSignature_bounded_iff hend hleft⟩
  rw [ledgerSignTransaction, hrun k hk]
  rfl

/-- A device that signs. -/
theorem signatureBounded_signed :
    ∃ K signed, (∀ k ≥ K, ledgerSignTransaction (.answering fun _ => .response (List.replicate 104 1) swOk) [4] 80 k =
        some signed) ∧
      (signed.Bounded ↔ (Reply.response (List.replicate 104 1) swOk).Fits) :=
  signatureBounded_iff (fun _ => .response (List.replicate 104 1) swOk) (n := 0) (List.cons_ne_nil _ _) (by decide)
    (fun _ h => absurd h (Nat.not_lt_zero _)) ⟨by decide, fun _ => List.cons_ne_nil _ _⟩

/-- **A refusal with a byte of data, a success with 113 bytes and one with 32**: the first copies -31 bytes, the
second 81, and the third signs with nothing. -/
theorem signature_overruns :
    ledgerSignTransaction (.answering fun _ => .response [1] 0x6985) [4] 80 2 =
        some ⟨false, some (-31), -31, [], "Dongle application error : 6985"⟩ ∧
      ledgerSignTransaction (.answering fun _ => .response (List.replicate 113 1) swOk) [4] 80 2 =
        some ⟨true, some 81, 81, List.replicate 81 1, ""⟩ ∧
      ledgerSignTransaction (.answering fun _ => .response (List.replicate 32 1) swOk) [4] 80 2 =
        some ⟨true, some 0, 0, [], ""⟩ ∧
      ¬ Signed.Bounded ⟨false, some (-31), -31, [], "Dongle application error : 6985"⟩ ∧
      ¬ Signed.Bounded ⟨true, some 81, 81, List.replicate 81 1, ""⟩ ∧
      ¬ Signed.Bounded ⟨true, some 0, 0, [], ""⟩ := by
  refine ⟨by decide +kernel, by decide +kernel, by decide +kernel, fun h => ?_, fun h => ?_, fun h => ?_⟩
  · exact absurd (h.inside _ rfl).1 (by decide)
  · exact absurd (h.inside _ rfl).2 (by decide)
  · exact absurd (h.length rfl).1 (by decide)

end Signature

/-! ### The transactions -/

/-- The Ledger as `sign_transaction` sees it; nothing is known where the exchange does not end. -/
def Dongle.ledgerSign (D : Dongle) (k : ℕ) (txnData : Bytes) : Except String Bytes :=
  match ledgerSignTransaction D txnData 80 k with
  | none => .error ""
  | some signed => if signed.value then .ok signed.sig else .error signed.error

/-- **A device whose replies fit signs as the transactions expect**: with 1 to 80 bytes, so that the body of the
transaction is encoded as a submessage. -/
theorem ledgerSign_sized {replies : ℕ → Reply} {n : ℕ} {txnData sig : Bytes} (hne : txnData ≠ [])
    (hbefore : ∀ m < n, ¬ (replies m).Ends) (hend : (replies n).Ends) (hfits : (replies n).Fits) :
    ∃ K, ∀ k ≥ K, (Dongle.answering replies).ledgerSign k txnData = .ok sig → 1 ≤ sig.length ∧ sig.length ≤ 80 := by
  obtain ⟨K, e, hrun, hleft⟩ := ledgerSendApdu_answering hne hbefore hend
  have hbounded := (takeSignature_bounded_iff hend hleft).mpr hfits
  refine ⟨K, fun k hk hsig => ?_⟩
  have hsigned : ledgerSignTransaction (.answering replies) txnData 80 k = some (takeSignature 80 "" e) := by
    rw [ledgerSignTransaction, hrun k hk]
    rfl
  rw [Dongle.ledgerSign, hsigned] at hsig
  dsimp only at hsig
  split at hsig
  · next hvalue =>
    obtain ⟨hlow, hhigh⟩ := hbounded.length hvalue
    obtain rfl := Except.ok.inj hsig
    have hlen := takeSignature_sig_length hend hleft hvalue (by omega)
    omega
  · cases hsig

end Libaergo.Ledger
