import Libaergo.Socket.Stages

/-!
# What an answer does

The effect of an answer on the request, on the transaction whose receipt it fetches, and on the callbacks,
for each kind of answer.
-/

namespace Libaergo

open Lib

variable {E : Env} {w : World} {r c p : ReqId} {m text : Bytes}

/-! ### The request around its handler -/

/-- The request when its response handler is called. -/
def World.received (w : World) (r : ReqId) : World :=
  (w.touch .transfer r).modify r fun q => { q with processed := true }

/-- The request when its error handler is called. -/
def World.failing (w : World) (r : ReqId) (text : Bytes) : World :=
  (w.touch .transfer r).modify r fun q =>
    { q with processed := true, errorMsg := q.errorMsg.or (some text) }

lemma processMessage_eq : processMessage E w r m =
    (processResponse E (w.received r) r m).2.modify r fun q =>
      { q with success := (processResponse E (w.received r) r m).1 } :=
  rfl

lemma processRequestError_eq {h : ErrorHandler} (hh : (w.heap r).processError = some h) :
    processRequestError w r text = (processError (w.failing r text) r h).2.modify r fun q =>
      { q with success := (processError (w.failing r text) r h).1 } := by
  have hh' : ((w.failing r text).heap r).processError = some h := by simp [World.failing, hh]
  unfold processRequestError
  simp only
  split
  · next hn => exact nomatch hn.symm.trans hh'
  · next h' hs =>
    obtain rfl := Option.some.inj (hs.symm.trans hh')
    rfl

/-- Nothing is done about the text where there is no error handler. -/
lemma processRequestError_of_none (text : Bytes) (hh : (w.heap r).processError = none) :
    processRequestError w r text = w.failing r text := by
  have hh' : ((w.failing r text).heap r).processError = none := by simp [World.failing, hh]
  unfold processRequestError
  simp only
  split
  · rfl
  · next h hs => exact nomatch hs.symm.trans hh'

@[simp] lemma received_heap_self : (w.received r).heap r = { w.heap r with processed := true } := by
  simp [World.received]

@[simp] lemma failing_heap_self : (w.failing r text).heap r =
    { w.heap r with processed := true, errorMsg := (w.heap r).errorMsg.or (some text) } := by
  simp [World.failing]

lemma received_heap_ne (h : p ≠ r) : (w.received r).heap p = w.heap p := by
  simp [World.received, World.modify_heap_ne, h]

lemma failing_heap_ne (text : Bytes) (h : p ≠ r) : (w.failing r text).heap p = w.heap p := by
  simp [World.failing, World.modify_heap_ne, h]

@[simp] lemma received_log : (w.received r).log = w.log := by
  simp [World.received]

@[simp] lemma received_receipts : (w.received r).receipts = w.receipts := by
  simp [World.received, World.modify]

@[simp] lemma failing_log : (w.failing r text).log = w.log := by
  simp [World.failing]

/-! ### Answers to a transaction -/

section Transaction

variable (ht : (w.heap r).processResponse.IsTransaction)

include ht

lemma processResponse_transaction :
    processResponse E (w.received r) r m = handleTransferResponse E (w.received r) r m := by
  rcases ht with ht | ht <;> simp [processResponse, ht, handleContractCallResponse]

lemma processMessage_accepted {response : CommitResult} (hm : E.codec.commit m = some response)
    (he : response.error = 0) : (processMessage E w r m).heap r =
      { w.heap r with processed := true, needReceipt := true, success := true } := by
  rw [processMessage_eq, processResponse_transaction ht]
  simp [handleTransferResponse, hm, he]

lemma processMessage_rejected {response : CommitResult} (hm : E.codec.commit m = some response)
    (he : response.error ≠ 0) :
    (processMessage E w r m).heap r = { w.heap r with processed := true, success := false } := by
  rw [processMessage_eq, processResponse_transaction ht]
  simp [handleTransferResponse, hm, he]

lemma processMessage_transaction : ∃ accepted, (processMessage E w r m).heap r =
    { w.heap r with
      processed := true
      needReceipt := (w.heap r).needReceipt || accepted
      success := accepted } := by
  rw [processMessage_eq, processResponse_transaction ht]
  unfold handleTransferResponse
  split
  · exact ⟨false, by simp⟩
  · split
    · exact ⟨true, by simp⟩
    · exact ⟨false, by simp⟩

lemma processMessage_transaction_receipts {ptr : ℕ} (hptr : (w.heap r).returnPtr = some ptr) :
    (processMessage E w r m).receipts ptr =
      match E.codec.commit m with
      | none => w.receipts ptr
      | some response =>
        if response.error = 0 then w.receipts ptr
        else .failed (response.detail.map (errorText response.error)) := by
  rw [processMessage_eq, processResponse_transaction ht]
  unfold handleTransferResponse
  cases E.codec.commit m with
  | none => simp [World.modify]
  | some response =>
    by_cases he : response.error = 0
    · simp [he, World.modify]
    · simp [he, hptr, World.setReceipt, World.modify]

lemma processMessage_transaction_log : (processMessage E w r m).log = w.log := by
  rw [processMessage_eq, processResponse_transaction ht, World.modify_log]
  unfold handleTransferResponse
  split
  · exact received_log
  · split <;> simp

end Transaction

/-! ### Answers to the fetch of a receipt -/

lemma settleParent_heap (hp : (w.heap c).parent = some p) : (settleParent w c).heap p =
    { w.heap p with needReceipt := false, processingReceipt := false } := by
  simp [settleParent, hp]

lemma settleParent_receipts : (settleParent w c).receipts = w.receipts := by
  unfold settleParent
  split
  · rfl
  · simp [World.modify]

lemma settleParent_log : (settleParent w c).log = w.log := by
  unfold settleParent
  split <;> simp

section Receipt

variable (hh : (w.heap c).processResponse = .receipt)

include hh

lemma processResponse_receipt :
    processResponse E (w.received c) c m = handleReceiptResponse E (w.received c) c m := by
  simp [processResponse, hh]

lemma processMessage_settles (hp : (w.heap c).parent = some p) (hpc : p ≠ c) :
    (processMessage E w c m).heap p =
      { w.heap p with needReceipt := false, processingReceipt := false } := by
  rw [processMessage_eq, processResponse_receipt hh, World.modify_heap_ne _ _ _ hpc]
  have hp' : ((w.received c).heap c).parent = some p := by simp [hp]
  unfold handleReceiptResponse
  split
  · split
    · rw [settleParent_heap hp', received_heap_ne hpc]
    · rw [settleParent_heap (by simpa using hp), World.setReceipt_heap, received_heap_ne hpc]
  · split
    · rw [settleParent_heap (by simpa using hp), World.invoke_heap, received_heap_ne hpc]
    · rw [settleParent_heap (by simpa using hp), World.setReceipt_heap, received_heap_ne hpc]

lemma processMessage_fetch_receipts (hcb : (w.heap c).callback = none) {ptr : ℕ}
    (hptr : (w.heap c).returnPtr = some ptr) :
    (processMessage E w c m).receipts ptr =
      match E.codec.receipt m with
      | .error receipt => .undecoded receipt
      | .ok receipt => .decoded (w.heap c).txnHash receipt := by
  rw [processMessage_eq, processResponse_receipt hh]
  unfold handleReceiptResponse
  cases E.codec.receipt m <;>
    simp [hcb, hptr, World.modify, settleParent_receipts, World.setReceipt]

end Receipt

/-! ### The end of a fetch with an error text -/

section Failed

variable (hp : (w.heap c).parent = some p)

include hp

lemma onFailedReceipt_retry (ht : txNotFound ((w.heap c).errorMsg.getD []) = true)
    (ha : (w.heap p).receiptAttempts + 1 < 10) :
    (onFailedReceipt w c).2.log = w.log ∧ (onFailedReceipt w c).2.heap p =
      { w.heap p with
        receiptAttempts := (w.heap p).receiptAttempts + 1
        processingReceipt := false } := by
  have ha' : ¬ 10 ≤ (w.heap p).receiptAttempts + 1 := by omega
  simp [onFailedReceipt, hp, ht, ha']

/-- Any other end settles the transaction, and the callback is invoked. -/
lemma onFailedReceipt_giveUp (hpc : p ≠ c)
    (ht : ¬ (txNotFound ((w.heap c).errorMsg.getD []) = true ∧ (w.heap p).receiptAttempts + 1 < 10)) :
    ((onFailedReceipt w c).2.heap p).needReceipt = false ∧
      ((onFailedReceipt w c).2.heap p).processed = (w.heap p).processed ∧
      ((w.heap c).callback ≠ none →
        (onFailedReceipt w c).2.invocations p = w.invocations p + 1) := by
  have hinvoke : ∀ (v : World) (o : Outcome), v.log = w.log → v.heap c = w.heap c →
      (w.heap c).callback ≠ none → (v.invoke c o).invocations p = w.invocations p + 1 := by
    intro v o hlog hheap hcb
    rw [← hheap] at hcb hp
    have h := World.invocations_invoke_self (o := o) hcb
    rwa [World.callOf_child hp, World.invocations_congr hlog] at h
  simp only [onFailedReceipt, hp]
  split
  · next htx =>
    have ha : 10 ≤ (w.heap p).receiptAttempts + 1 := by
      by_contra hn
      exact ht ⟨htx, by omega⟩
    rw [if_pos (by simpa using ha)]
    refine ⟨by simp, by simp, hinvoke _ _ (by simp) ?_⟩
    simp [World.modify_heap_ne, hpc.symm]
  · refine ⟨by simp, by simp, hinvoke _ _ (by simp) ?_⟩
    simp [World.modify_heap_ne, hpc.symm]

end Failed

section FailedFetch

variable (hh : (w.heap c).processError = some .failedReceipt) (hp : (w.heap c).parent = some p)
  (hpc : p ≠ c)

include hh hp hpc

lemma processRequestError_retry
    (ht : txNotFound (((w.heap c).errorMsg.or (some text)).getD []) = true)
    (ha : (w.heap p).receiptAttempts + 1 < 10) :
    (processRequestError w c text).log = w.log ∧ (processRequestError w c text).heap p =
      { w.heap p with
        receiptAttempts := (w.heap p).receiptAttempts + 1
        processingReceipt := false } := by
  have hf := failing_heap_ne (w := w) text hpc
  obtain ⟨hlog, hheap⟩ := onFailedReceipt_retry (w := w.failing c text) (c := c) (p := p)
    (by simpa using hp) (by simpa using ht) (by rwa [hf])
  rw [processRequestError_eq hh]
  refine ⟨hlog.trans failing_log, ?_⟩
  rw [World.modify_heap_ne _ _ _ hpc]
  exact hheap.trans (by rw [hf])

/-- Any other text settles the transaction, and the callback is invoked. -/
lemma processRequestError_giveUp
    (ht : ¬ (txNotFound (((w.heap c).errorMsg.or (some text)).getD []) = true ∧
      (w.heap p).receiptAttempts + 1 < 10)) :
    ((processRequestError w c text).heap p).needReceipt = false ∧
      ((processRequestError w c text).heap p).processed = (w.heap p).processed ∧
      ((w.heap c).callback ≠ none →
        (processRequestError w c text).invocations p = w.invocations p + 1) := by
  have hf := failing_heap_ne (w := w) text hpc
  obtain ⟨hneed, hproc, hinv⟩ := onFailedReceipt_giveUp (w := w.failing c text) (c := c) (p := p)
    (by simpa using hp) hpc (by simpa [hf] using ht)
  rw [processRequestError_eq hh, World.modify_heap_ne _ _ _ hpc]
  refine ⟨hneed, hproc.trans (by rw [hf]), fun hcb => ?_⟩
  exact (hinv (by simpa using hcb)).trans (by rw [World.invocations_congr failing_log])

end FailedFetch

/-! ### The callback of an answer -/

/-- The message is one that the response handler of the request reports to its callback; for a
transaction, an acceptance. -/
def World.reports (E : Env) (w : World) (x : ReqId) (m : Bytes) : Bool :=
  match (w.heap x).processResponse with
  | .transfer => (E.codec.commit m).any fun response => response.error = 0
  | .contractCall => (E.codec.commit m).any fun response => response.error = 0
  | .query => queryBuffer E w x m && (E.codec.query (queryBufferSize w x m) m).isSome
  | .queryStateVar => queryBuffer E w x m && (E.codec.queryStateVar (queryBufferSize w x m) m).isSome
  | .event => (E.codec.event m).isSome
  | .receipt => (E.codec.receipt m).toBool
  | .block => (E.codec.block m).isSome
  | .blockchainStatus => false
  | .accountState => false

/-- **A message that is reported invokes the callback once**, for the call of the request. -/
theorem processMessage_reports (hcb : (w.heap r).callback ≠ none)
    (ht : ¬ (w.heap r).processResponse.IsTransaction) (hm : w.reports E r m = true) :
    (processMessage E w r m).invocations (w.callOf r) = w.invocations (w.callOf r) + 1 := by
  have hcall : (w.received r).callOf r = w.callOf r := by simp [World.callOf]
  have hinvoke : ∀ o, ((w.received r).invoke r o).invocations (w.callOf r) =
      w.invocations (w.callOf r) + 1 := by
    intro o
    have h := World.invocations_invoke_self (w := w.received r) (o := o) (r := r) (by simpa using hcb)
    rwa [hcall, World.invocations_congr received_log] at h
  have hbuf : queryBuffer E (w.received r) r m = queryBuffer E w r m := by simp [queryBuffer]
  have hsize : queryBufferSize (w.received r) r m = queryBufferSize w r m := by simp [queryBufferSize]
  rw [processMessage_eq, World.invocations_congr (World.modify_log ..)]
  unfold World.reports at hm
  have hh : ((w.received r).heap r).processResponse = (w.heap r).processResponse := by simp
  unfold processResponse
  rw [hh]
  cases hk : (w.heap r).processResponse with
  | transfer => exact absurd (.inl hk) ht
  | contractCall => exact absurd (.inr hk) ht
  | query =>
    rw [hk] at hm
    obtain ⟨hb, hs⟩ := Bool.and_eq_true_iff.mp hm
    obtain ⟨value, hv⟩ := Option.isSome_iff_exists.mp hs
    simp only [handleQueryResponse, hbuf, hb, hsize, hv, if_true]
    exact hinvoke _
  | queryStateVar =>
    rw [hk] at hm
    obtain ⟨hb, hs⟩ := Bool.and_eq_true_iff.mp hm
    obtain ⟨value, hv⟩ := Option.isSome_iff_exists.mp hs
    simp only [handleQueryStateVarResponse, hbuf, hb, hsize, hv, if_true]
    exact hinvoke _
  | event =>
    rw [hk] at hm
    obtain ⟨event, hv⟩ := Option.isSome_iff_exists.mp hm
    simp only [handleEventResponse, hv]
    exact hinvoke _
  | receipt =>
    rw [hk] at hm
    cases hv : E.codec.receipt m with
    | error _ =>
      rw [hv] at hm
      cases hm
    | ok receipt =>
      have hcb' : ((w.received r).heap r).callback.isSome = true := by
        simpa [Option.isSome_iff_ne_none] using hcb
      simp only [handleReceiptResponse, hv, hcb', if_true]
      rw [World.invocations_congr settleParent_log]
      exact hinvoke _
  | block =>
    rw [hk] at hm
    obtain ⟨block, hv⟩ := Option.isSome_iff_exists.mp hm
    simp only [handleBlockResponse, hv]
    exact hinvoke _
  | blockchainStatus =>
    rw [hk] at hm
    cases hm
  | accountState =>
    rw [hk] at hm
    cases hm

/-- An error text is reported to the callback of a request that has an error handler. -/
lemma processRequestError_reports (hcb : (w.heap r).callback ≠ none) (hp : (w.heap r).parent = none)
    (hh : (w.heap r).processError ≠ none) :
    (processRequestError w r text).invocations r = w.invocations r + 1 := by
  have hcall : (w.failing r text).callOf r = r := by simp [World.callOf, hp]
  have hinvoke : ∀ o, ((w.failing r text).invoke r o).invocations r = w.invocations r + 1 := by
    intro o
    have h := World.invocations_invoke_self (w := w.failing r text) (o := o) (r := r)
      (by simpa using hcb)
    rwa [hcall, World.invocations_congr failing_log] at h
  obtain ⟨h, hh⟩ := Option.ne_none_iff_exists'.mp hh
  rw [processRequestError_eq hh, World.invocations_congr (World.modify_log ..)]
  cases h with
  | query => exact hinvoke _
  | failedReceipt =>
    have hp' : ((w.failing r text).heap r).parent = none := by simp [hp]
    simp only [processError, onFailedReceipt, hp']
    exact hinvoke _

end Libaergo
