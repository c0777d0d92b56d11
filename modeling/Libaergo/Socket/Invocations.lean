import Libaergo.Socket.Completion

/-!
# What callbacks are invoked with (`aergo.c`, `socket.c`)

A request keeps the callback of its call as an untyped pointer, and each handler casts it to a type of its own.
The callbacks of the requests for receipts are those of their parents, error texts come to handlers of their own,
and all of it happens in any order; still a callback is only invoked as what it is, with the argument that came
with it (`invocations_suit`).  A subscription is invoked with what its messages decode to, one after the other,
and with nothing else (`subscription_history`).
-/

namespace Libaergo

open Lib

/-! ### Callbacks -/

/-- The types of the callbacks: `transaction_receipt_cb`, `query_smart_contract_cb` or `query_state_var_cb`, which
are the same, `contract_event_cb`, `block_stream_cb`. -/
inductive CallbackType where
  | receipt
  | query
  | event
  | block
  deriving DecidableEq

/-- The type to which a callback is cast where it is invoked so. -/
def Outcome.callbackType : Outcome → CallbackType
  | .receipt _ => .receipt
  | .failedReceipt _ => .receipt
  | .query _ _ => .query
  | .event _ => .event
  | .block _ _ => .block

def Outcome.isError : Outcome → Bool
  | .failedReceipt _ => true
  | .query success _ => !success
  | _ => false

/-- The type of the callback that an API call takes, if it takes one. -/
def Service.callbackType : Service → Option CallbackType
  | .transfer => some .receipt
  | .contractCall => some .receipt
  | .receipt => some .receipt
  | .query => some .query
  | .queryStateVar => some .query
  | .events => some .event
  | .blocks => some .block
  | .blockchainStatus => none
  | .accountState => none

/-- The type to which a response handler casts the callback. -/
def ResponseHandler.callbackType : ResponseHandler → Option CallbackType
  | .transfer => some .receipt
  | .contractCall => some .receipt
  | .receipt => some .receipt
  | .query => some .query
  | .queryStateVar => some .query
  | .event => some .event
  | .block => some .block
  | .blockchainStatus => none
  | .accountState => none

/-- The type to which an error handler casts it. -/
def ErrorHandler.callbackType : ErrorHandler → CallbackType
  | .query => .query
  | .failedReceipt => .receipt

/-- What a message comes to for the callback of its request, if it has one. -/
def Request.outcome (E : Env) (q : Request) (m : Bytes) : Option Outcome :=
  match q.processResponse with
  | .query =>
    if q.callback.isNone || E.malloc (m.length + 5) then
      (E.codec.query (if q.callback.isSome then m.length + 5 else q.returnSize) m).map (.query true)
    else none
  | .queryStateVar =>
    if q.callback.isNone || E.malloc (m.length + 5) then
      (E.codec.queryStateVar (if q.callback.isSome then m.length + 5 else q.returnSize) m).map fun value =>
        .query (value ≠ []) (if value ≠ [] then value else noStateVariableText)
    else none
  | .event => (E.codec.event m).map .event
  | .block => (E.codec.block m).map fun p => .block p.1 p.2
  | .receipt =>
    match E.codec.receipt m with
    | .ok receipt => some (.receipt receipt)
    | .error _ => none
  | _ => none

/-- The invocation of the callback of a request, if it has one. -/
def World.invocation (w : World) (r : ReqId) (outcome : Outcome) : Option Invocation :=
  (w.heap r).callback.map fun cb => ⟨w.callOf r, cb, (w.heap r).arg, outcome⟩

/-! ### One step -/

section Step

variable {E : Env} {w w' : World} {r x : ReqId} {m text : Bytes} {o : Outcome} {a : Act} {i : Invocation}

lemma invoke_log (w : World) (r : ReqId) (o : Outcome) :
    (w.invoke r o).log = (w.invocation r o).toList ++ w.log := by
  unfold World.invoke World.invocation
  split
  · next h => rw [h]; rfl
  · next cb h => rw [h]; rfl

lemma processResponse_log (E : Env) (w : World) (r : ReqId) (m : Bytes) : (processResponse E w r m).2.log =
    (((w.heap r).outcome E m).bind fun o => w.invocation r o).toList ++ w.log := by
  have htransfer : (handleTransferResponse E w r m).2.log = w.log := by
    unfold handleTransferResponse
    split
    · rfl
    · split
      · rfl
      · exact World.setReceipt_log ..
  unfold processResponse Request.outcome
  cases hp : (w.heap r).processResponse with
  | transfer => exact htransfer
  | contractCall => exact htransfer
  | query =>
    dsimp only
    unfold handleQueryResponse queryBuffer queryBufferSize
    split
    · split
      · next h => rw [h]; rfl
      · next value h => rw [h]; exact invoke_log w r _
    · rfl
  | queryStateVar =>
    dsimp only
    unfold handleQueryStateVarResponse queryBuffer queryBufferSize
    split
    · split
      · next h => rw [h]; rfl
      · next value h => rw [h]; exact invoke_log w r _
    · rfl
  | event =>
    dsimp only
    unfold handleEventResponse
    split
    · next h => rw [h]; rfl
    · next event h => rw [h]; exact invoke_log w r _
  | receipt =>
    dsimp only
    unfold handleReceiptResponse
    split
    · next h =>
      rw [settleParent_log, h]
      split
      · rfl
      · exact World.setReceipt_log ..
    · next receipt h =>
      rw [settleParent_log, h]
      split
      · exact invoke_log w r _
      · next hcb =>
        rw [World.setReceipt_log]
        have hnone : (w.heap r).callback = none := by simpa using hcb
        simp [World.invocation, hnone]
  | block =>
    dsimp only
    unfold handleBlockResponse
    split
    · next h => rw [h]; rfl
    · next blockNo timestamp h => rw [h]; exact invoke_log w r _
  | blockchainStatus => rfl
  | accountState =>
    dsimp only
    unfold handleAccountStateResponse
    split <;> rfl

lemma Request.fixed_arg {q q' : Request} (h : q'.fixed = q.fixed) : q'.arg = q.arg := congrArg (fun q => q.arg) h

lemma invocation_congr (h : (w'.heap r).fixed = (w.heap r).fixed) (o : Outcome) :
    w'.invocation r o = w.invocation r o := by
  have harg : (w'.heap r).arg = (w.heap r).arg := Request.fixed_arg h
  unfold World.invocation World.callOf
  rw [Request.fixed_callback h, Request.fixed_parent h, harg]

lemma received_invocation (w : World) (r : ReqId) (o : Outcome) :
    (w.received r).invocation r o = w.invocation r o := by
  refine invocation_congr ?_ o
  rw [received_heap_self]
  rfl

lemma processMessage_log (E : Env) (w : World) (r : ReqId) (m : Bytes) : (processMessage E w r m).log =
    (((w.heap r).outcome E m).bind fun o => w.invocation r o).toList ++ w.log := by
  have houtcome : ((w.received r).heap r).outcome E m = (w.heap r).outcome E m := by
    rw [received_heap_self]
    rfl
  have hmodify : (processMessage E w r m).log = (processResponse E (w.received r) r m).2.log := rfl
  rw [hmodify, processResponse_log, houtcome, received_log]
  congr 3
  funext o
  exact received_invocation w r o

lemma failing_invocation (w : World) (r : ReqId) (text : Bytes) (o : Outcome) :
    (w.failing r text).invocation r o = w.invocation r o := by
  refine invocation_congr ?_ o
  rw [failing_heap_self]
  rfl

/-- An error text invokes the callback once at most, with the text, as its handler casts it. -/
lemma processError_log (w : World) (r : ReqId) (h : ErrorHandler) : (processError w r h).2.log = w.log ∨
    ∃ o, o.isError = true ∧ o.callbackType = h.callbackType ∧
      (processError w r h).2.log = (w.invocation r o).toList ++ w.log := by
  cases h with
  | query => exact .inr ⟨_, rfl, rfl, invoke_log w r _⟩
  | failedReceipt =>
    -- the parent is written to before the callback is invoked
    have hinvoke : ∀ v : World, v.log = w.log → (∀ o, v.invocation r o = w.invocation r o) → ∀ error,
        ∃ o, o.isError = true ∧ o.callbackType = ErrorHandler.failedReceipt.callbackType ∧
          (v.invoke r (.failedReceipt error)).log = (w.invocation r o).toList ++ w.log := by
      intro v hlog hinv error
      exact ⟨.failedReceipt error, rfl, rfl, by rw [invoke_log, hlog, hinv]⟩
    have htouch : ∀ (p : ReqId) (o : Outcome), (w.touch .parent p).invocation r o = w.invocation r o := by
      intro p o
      exact invocation_congr (by rw [World.touch_heap]) o
    have hmodify : ∀ (v : World) (p : ReqId) (f : Request → Request), (∀ q, (f q).fixed = q.fixed) →
        ∀ o, (v.modify p f).invocation r o = v.invocation r o := by
      intro v p f hf o
      exact invocation_congr (World.modify_fixed hf r) o
    unfold processError onFailedReceipt
    dsimp only
    split
    · exact .inr (hinvoke w rfl (fun _ => rfl) _)
    · next p hp =>
      split
      · split
        · refine .inr (hinvoke _ ?_ (fun o => ?_) _)
          · rw [World.modify_log, World.modify_log, World.touch_log]
          · refine (hmodify _ p _ ?_ o).trans ((hmodify _ p _ ?_ o).trans (htouch p o))
            · exact fun _ => rfl
            · exact fun _ => rfl
        · exact .inl (by rw [World.modify_log, World.modify_log, World.touch_log])
      · refine .inr (hinvoke _ ?_ (fun o => ?_) _)
        · rw [World.modify_log, World.touch_log]
        · refine (hmodify _ p _ ?_ o).trans (htouch p o)
          exact fun _ => rfl

lemma processRequestError_log (w : World) (r : ReqId) (text : Bytes) : (processRequestError w r text).log = w.log ∨
    ∃ h o, (w.heap r).processError = some h ∧ o.isError = true ∧ o.callbackType = h.callbackType ∧
      (processRequestError w r text).log = (w.invocation r o).toList ++ w.log := by
  cases hh : (w.heap r).processError with
  | none =>
    rw [processRequestError_of_none text hh]
    exact .inl failing_log
  | some h =>
    rw [processRequestError_eq hh, World.modify_log]
    rcases processError_log (w.failing r text) r h with hlog | ⟨o, he, ho, hlog⟩
    · exact .inl (hlog.trans failing_log)
    · rw [failing_invocation, failing_log] at hlog
      exact .inr ⟨h, o, rfl, he, ho, hlog⟩

/-- **The invocations that an act can make.** -/
inductive World.Invokes (E : Env) (w : World) : Act → Invocation → Prop
  | message {x : ReqId} {m : Bytes} {o : Outcome} {i : Invocation} (ho : (w.heap x).outcome E m = some o)
      (hi : w.invocation x o = some i) : w.Invokes E (.message x m) i
  | error {x : ReqId} {text : Bytes} {h : ErrorHandler} {o : Outcome} {i : Invocation}
      (hh : (w.heap x).processError = some h) (he : o.isError = true) (ho : o.callbackType = h.callbackType)
      (hi : w.invocation x o = some i) : w.Invokes E (.error x text) i

/-- **An act adds to the log what it invokes.** -/
theorem step_log (h : w.step E a = some w') : ∃ new, w'.log = new ++ w.log ∧ ∀ i ∈ new, w.Invokes E a i := by
  have hsame : ∀ {v : World}, v.log = w.log → ∃ new, v.log = new ++ w.log ∧ ∀ i ∈ new, w.Invokes E a i :=
    fun hlog => ⟨[], hlog, fun i hi => nomatch hi⟩
  cases a <;> simp only [World.step, Option.ite_none_right_eq_some, Option.some.injEq] at h <;> obtain ⟨-, rfl⟩ := h
  case call c => exact hsame (World.call_log c)
  case process =>
    refine hsame ?_
    unfold World.process
    split <;> rfl
  case enter => exact hsame rfl
  case error x text =>
    rcases processRequestError_log w x text with hlog | ⟨h, o, hh, he, ho, hlog⟩
    · exact hsame hlog
    · exact ⟨_, hlog, fun i hi => .error hh he ho (Option.mem_toList.mp hi)⟩
  case message x m =>
    refine ⟨_, processMessage_log E w x m, fun i hi => ?_⟩
    obtain ⟨o, ho, hi⟩ := Option.bind_eq_some_iff.mp (Option.mem_toList.mp hi)
    exact .message ho hi
  case curl ok =>
    refine hsame ?_
    split
    · rfl
    · exact w.leave_log
  case done r => exact hsame rfl
  case infoEnd => exact hsame rfl
  case checkReceipts start => exact hsame (World.checkReceipts_log start)
  case checkMain => exact hsame World.checkMain_log
  case exit => exact hsame w.release.leave_log

/-- A request that an act makes is that of a call, or fetches the receipt of a request that wants one. -/
lemma step_new (h : w.step E a = some w') (hr : w.next ≤ r) (hlt : r < w'.next) : r = w.next ∧
    ((∃ c : Call, a = .call c ∧ c.start ≠ .noRequest ∧ w'.heap r = c.request) ∨
      ∃ start p, a = .checkReceipts start ∧ start ≠ .noRequest ∧ w.wantingReceipt = some p ∧
        (w'.heap r).parent = some p) := by
  rcases World.step_next_eq h with heq | ⟨c, rfl⟩ | ⟨start, rfl⟩
  · exact absurd hlt (by rw [heq]; exact not_lt.mpr hr)
  · simp only [World.step, Option.ite_none_right_eq_some, Option.some.injEq] at h
    obtain ⟨-, rfl⟩ := h
    by_cases hs : c.start = .noRequest
    · unfold World.call at hlt
      rw [hs] at hlt
      exact absurd hlt (not_lt.mpr hr)
    · obtain ⟨hheap, hnext⟩ := World.call_made (w := w) hs
      obtain rfl : r = w.next := le_antisymm (Nat.lt_succ_iff.mp (hlt.trans_eq hnext)) hr
      exact ⟨rfl, .inl ⟨c, rfl, hs, hheap⟩⟩
  · simp only [World.step, Option.ite_none_right_eq_some, Option.some.injEq] at h
    obtain ⟨-, rfl⟩ := h
    have hmade : ∀ {p : ReqId} {v : World}, v.next = w.next + 1 → v.heap w.next = (w.makeFetch p).heap w.next →
        r < v.next → r = w.next ∧ (v.heap r).parent = some p := by
      intro p v hnext hheap hlt
      obtain rfl : r = w.next := le_antisymm (Nat.lt_succ_iff.mp (hlt.trans_eq hnext)) hr
      rw [hheap, World.makeFetch_heap_next]
      exact ⟨rfl, rfl⟩
    have hstart : start ≠ .noRequest := by
      rintro rfl
      unfold World.checkReceipts at hlt
      split at hlt <;> exact absurd hlt (not_lt.mpr hr)
    have hchecked := w.checked start
    generalize w.checkReceipts start = v at hchecked hlt ⊢
    cases hchecked with
    | nothing => exact absurd hlt (not_lt.mpr hr)
    | noRequest => exact absurd hlt (not_lt.mpr hr)
    | noHandle p hp =>
      have hne : w.next ≠ p → ((w.makeFetch p).giveUpReceipt p).heap w.next = (w.makeFetch p).heap w.next :=
        fun hne => World.giveUpReceipt_heap_ne _ _ hne
      by_cases hne' : w.next = p
      · obtain rfl : r = w.next := le_antisymm (Nat.lt_succ_iff.mp hlt) hr
        refine ⟨rfl, .inr ⟨_, p, rfl, hstart, hp, ?_⟩⟩
        rw [hne', World.giveUpReceipt_heap_self, ← hne', World.makeFetch_heap_next]
        rfl
      · obtain ⟨hrn, hparent⟩ := hmade rfl (hne hne') hlt
        exact ⟨hrn, .inr ⟨_, p, rfl, hstart, hp, hparent⟩⟩
    | async p accepted hp =>
      obtain ⟨hrn, hparent⟩ := hmade rfl rfl hlt
      exact ⟨hrn, .inr ⟨_, p, rfl, hstart, hp, hparent⟩⟩
    | nested p accepted hp =>
      obtain ⟨hrn, hparent⟩ := hmade rfl rfl hlt
      exact ⟨hrn, .inr ⟨_, p, rfl, hstart, hp, hparent⟩⟩

end Step

/-! ### Every invocation suits its call -/

/-- In the course of these acts, the request `r` was made by the call `c`. -/
def World.MadeBy (E : Env) (w₀ : World) (as : List Act) (r : ReqId) (c : Call) : Prop :=
  ∃ before after w, as = before ++ .call c :: after ∧ run (World.step E) w₀ before = some w ∧ w.next = r ∧
    c.start ≠ .noRequest

/-- **An invocation suits a call**: it is of the callback of the call, with the argument of the call, and the
callback is cast to what it is. -/
structure Call.Suits (c : Call) (i : Invocation) : Prop where
  callback : c.callback = some i.callback
  arg : c.arg = i.arg
  type : c.service.callbackType = some i.outcome.callbackType

/-- What is known of the requests and the invocations after these acts. -/
structure World.Called' (E : Env) (w₀ : World) (as : List Act) (w : World) : Prop where
  ok : w.Ok
  made : ∀ r < w.next, (w.heap r).parent = none → ∃ c, World.MadeBy E w₀ as r c ∧ (w.heap r).fixed = c.request.fixed
  /-- Receipts are fetched for transactions. -/
  kin : ∀ x p, (w.heap x).parent = some p → (w.heap p).processResponse.IsTransaction
  suits : ∀ i ∈ w.log, ∃ c, World.MadeBy E w₀ as i.call c ∧ c.Suits i

section Suits

variable {E : Env} {w₀ w w' : World} {as : List Act} {a : Act} {r x : ReqId} {c : Call} {i : Invocation} {o : Outcome}
  {m : Bytes}

lemma World.MadeBy.concat (h : World.MadeBy E w₀ as r c) (a : Act) : World.MadeBy E w₀ (as ++ [a]) r c := by
  obtain ⟨before, after, w, rfl, hrun, hr, hs⟩ := h
  exact ⟨before, after ++ [a], w, by simp, hrun, hr, hs⟩

lemma World.MadeBy.lt (h : World.MadeBy E w₀ as r c) (hrun : run (World.step E) w₀ as = some w) : r < w.next := by
  obtain ⟨before, after, v, rfl, hv, rfl, hs⟩ := h
  obtain ⟨v', hv', hrest⟩ := run_append_eq_some.mp hrun
  obtain rfl := Option.some.inj (hv.symm.trans hv')
  obtain ⟨u, hu, hrest⟩ := run_cons_eq_some.mp hrest
  simp only [World.step, Option.ite_none_right_eq_some, Option.some.injEq] at hu
  obtain ⟨-, rfl⟩ := hu
  have hstep : ∀ s a s', v.next < s.next → True → World.step E s a = some s' → v.next < s'.next :=
    fun s a s' hlt _ h => hlt.trans_le (World.step_next h).1
  have hnext : v.next < (v.call c).next := (Nat.lt_succ_self _).trans_eq (World.call_made (w := v) hs).2.symm
  exact run_invariant hstep hnext (every_of_forall fun _ _ => trivial) hrest

lemma Service.handler_callbackType (s : Service) : s.handler.callbackType = s.callbackType := by
  cases s <;> rfl

lemma Service.errorHandler_callbackType {s : Service} {h : ErrorHandler} (hs : s.errorHandler = some h) :
    s.callbackType = some h.callbackType := by
  cases s <;> simp only [Service.errorHandler, Option.some.injEq, reduceCtorEq] at hs <;> exact hs ▸ rfl

lemma Request.outcome_callbackType {q : Request} (h : q.outcome E m = some o) :
    q.processResponse.callbackType = some o.callbackType := by
  unfold Request.outcome at h
  cases hp : q.processResponse <;> simp only [hp, reduceCtorEq] at h
  case query =>
    split at h
    · obtain ⟨value, -, rfl⟩ := Option.map_eq_some_iff.mp h
      rfl
    · cases h
  case queryStateVar =>
    split at h
    · obtain ⟨value, -, rfl⟩ := Option.map_eq_some_iff.mp h
      rfl
    · cases h
  case event =>
    obtain ⟨event, -, rfl⟩ := Option.map_eq_some_iff.mp h
    rfl
  case receipt =>
    split at h
    · obtain rfl := Option.some.inj h
      rfl
    · cases h
  case block =>
    obtain ⟨block, -, rfl⟩ := Option.map_eq_some_iff.mp h
    rfl

/-- What is invoked for a request belongs to a request without a parent. -/
lemma World.invocation_root (hok : w.Ok) (hx : x < w.next) (hi : w.invocation x o = some i) :
    i.call < w.next ∧ (w.heap i.call).parent = none := by
  obtain ⟨cb, -, rfl⟩ := Option.map_eq_some_iff.mp hi
  cases hp : (w.heap x).parent with
  | none =>
    have hcall : w.callOf x = x := by simp [World.callOf, hp]
    exact ⟨hcall.symm ▸ hx, hcall.symm ▸ hp⟩
  | some p =>
    have hcall : w.callOf x = p := World.callOf_child hp
    obtain ⟨hplt, hparent, -⟩ := hok.child x p hp
    exact ⟨hcall.symm ▸ hplt, hcall.symm ▸ hparent⟩

/-- What the callback of a request is invoked with suits the call that the request works for. -/
lemma World.suits (hok : w.Ok) (hkin : ∀ x p, (w.heap x).parent = some p → (w.heap p).processResponse.IsTransaction)
    (hi : w.invocation x o = some i)
    (ho : (w.heap x).processResponse.callbackType = some o.callbackType ∨
      ∃ h, (w.heap x).processError = some h ∧ o.callbackType = h.callbackType)
    (hfixed : (w.heap i.call).fixed = c.request.fixed) : c.Suits i := by
  obtain ⟨cb, hcb, rfl⟩ := Option.map_eq_some_iff.mp hi
  dsimp only at hfixed
  cases hp : (w.heap x).parent with
  | none =>
    have hcall : w.callOf x = x := by simp [World.callOf, hp]
    rw [hcall] at hfixed
    have hhandler : (w.heap x).processResponse = c.service.handler := Request.fixed_processResponse hfixed
    have herror : (w.heap x).processError = c.service.errorHandler := Request.fixed_processError hfixed
    refine ⟨(Request.fixed_callback hfixed).symm.trans hcb, (Request.fixed_arg hfixed).symm, ?_⟩
    rcases ho with ho | ⟨h, hh, ho⟩
    · rw [← Service.handler_callbackType, ← hhandler]
      exact ho
    · rw [ho]
      exact Service.errorHandler_callbackType (herror.symm.trans hh)
  | some p =>
    -- the receipt of a transaction, with the callback and the argument of the parent
    have hcall : w.callOf x = p := World.callOf_child hp
    rw [hcall] at hfixed
    obtain ⟨-, -, hfetch⟩ := hok.child x p hp
    obtain ⟨hreceipt, hfailed, -, hcbp, -⟩ := hok.child_fields hp
    have hhandler : (w.heap p).processResponse = c.service.handler := Request.fixed_processResponse hfixed
    have harg : (w.heap x).arg = (w.heap p).arg :=
      Request.fixed_arg (q := (w.heap p).receiptFetch p) hfetch
    have htype : o.callbackType = .receipt := by
      rcases ho with ho | ⟨h, hh, ho⟩
      · rw [hreceipt] at ho
        exact (Option.some.inj ho).symm
      · obtain rfl := Option.some.inj (hfailed.symm.trans hh)
        exact ho
    refine ⟨?_, ?_, ?_⟩
    · exact (Request.fixed_callback hfixed).symm.trans (hcbp.symm.trans hcb)
    · exact (Request.fixed_arg hfixed).symm.trans harg.symm
    · rw [← Service.handler_callbackType, ← hhandler, htype]
      rcases hkin x p hp with h | h <;> rw [h] <;> rfl

/-- A request that is made fetches no receipt, or one for a transaction. -/
lemma World.kin_step (hok : w.Ok) (hkin : ∀ x p, (w.heap x).parent = some p → (w.heap p).processResponse.IsTransaction)
    (h : w.step E a = some w') (x p : ReqId) (hp : (w'.heap x).parent = some p) :
    (w'.heap p).processResponse.IsTransaction := by
  have hx := (hok.step h).child_lt hp
  rcases Nat.lt_or_ge x w.next with hlt | hge
  · rw [Request.fixed_parent (World.step_fixed h hlt)] at hp
    rw [Request.fixed_processResponse (World.step_fixed h (hok.child x p hp).1)]
    exact hkin x p hp
  · obtain ⟨rfl, ⟨c, -, -, hheap⟩ | ⟨-, p', -, -, hwants, hparent⟩⟩ := step_new h hge hx
    · rw [hheap] at hp
      cases hp
    · obtain rfl := Option.some.inj (hparent.symm.trans hp)
      obtain ⟨hmem, hneed⟩ := World.wantingReceipt_eq_some hwants
      rw [Request.fixed_processResponse (World.step_fixed h (hok.requests_lt _ hmem))]
      exact hok.need _ (World.wantsReceipt_iff.mp hneed).2.2.1

/-- What is invoked is what a message comes to, or an error text, for a request that libcurl has. -/
lemma World.Invokes.invocation (hok : w.Ok) (h : w.step E a = some w') (hi : w.Invokes E a i) :
    ∃ x o, x < w.next ∧ w.invocation x o = some i ∧ ((w.heap x).processResponse.callbackType = some o.callbackType ∨
      ∃ h, (w.heap x).processError = some h ∧ o.callbackType = h.callbackType) := by
  simp only [World.step] at h
  cases hi with
  | message ho hinv =>
    obtain ⟨hguard, -⟩ := Option.ite_none_right_eq_some.mp h
    exact ⟨_, _, hok.attached_lt _ hguard.2.1, hinv, .inl (Request.outcome_callbackType ho)⟩
  | error hh he ho hinv =>
    obtain ⟨hguard, -⟩ := Option.ite_none_right_eq_some.mp h
    exact ⟨_, _, hok.attached_lt _ hguard.2, hinv, .inr ⟨_, hh, ho⟩⟩

/-- **One act** more. -/
lemma World.Called'.step (hw : World.Called' E w₀ as w) (hrun : run (World.step E) w₀ as = some w)
    (h : w.step E a = some w') : World.Called' E w₀ (as ++ [a]) w' where
  ok := hw.ok.step h
  made r hr hp := by
    rcases Nat.lt_or_ge r w.next with hlt | hge
    · have hfixed := World.step_fixed h hlt
      rw [Request.fixed_parent hfixed] at hp
      obtain ⟨c, hmade, hc⟩ := hw.made r hlt hp
      exact ⟨c, hmade.concat a, hfixed.trans hc⟩
    · obtain ⟨rfl, ⟨c, rfl, hs, hheap⟩ | ⟨-, p, -, -, -, hparent⟩⟩ := step_new h hge hr
      · exact ⟨c, ⟨as, [], w, rfl, hrun, rfl, hs⟩, congrArg Request.fixed hheap⟩
      · rw [hparent] at hp
        cases hp
  kin := World.kin_step hw.ok hw.kin h
  suits i hi := by
    obtain ⟨new, hlog, hnew⟩ := step_log h
    rw [hlog] at hi
    rcases List.mem_append.mp hi with hi | hi
    · obtain ⟨x, o, hx, hinv, ho⟩ := (hnew i hi).invocation hw.ok h
      obtain ⟨hlt, hroot⟩ := World.invocation_root hw.ok hx hinv
      obtain ⟨c, hmade, hfixed⟩ := hw.made i.call hlt hroot
      exact ⟨c, hmade.concat a, World.suits hw.ok hw.kin hinv ho hfixed⟩
    · obtain ⟨c, hmade, hc⟩ := hw.suits i hi
      exact ⟨c, hmade.concat a, hc⟩

lemma World.Called'.start (E : Env) (receipts : ℕ → TransactionReceipt) (accounts : ℕ → AccountState) :
    World.Called' E (.start receipts accounts) [] (.start receipts accounts) where
  ok := .start receipts accounts
  made _ hr := absurd hr (Nat.not_lt_zero _)
  kin _ _ hp := nomatch hp
  suits _ hi := nomatch hi

lemma World.Called'.run (h : run (World.step E) w₀ as = some w) (h0 : World.Called' E w₀ [] w₀) :
    World.Called' E w₀ as w := by
  induction as using List.reverseRecOn generalizing w with
  | nil =>
    obtain rfl := Option.some.inj h
    exact h0
  | append_singleton as a ih =>
    obtain ⟨v, hv, h⟩ := run_concat_eq_some.mp h
    exact (ih hv).step hv h

/-- **Every callback is invoked as what it is**: in every run, each invocation is of the callback of an API call, with
the argument of that call, and as the type of callback that the call takes. -/
theorem invocations_suit {receipts : ℕ → TransactionReceipt} {accounts : ℕ → AccountState}
    (h : run (World.step E) (.start receipts accounts) as = some w) :
    ∀ i ∈ w.log, ∃ c, World.MadeBy E (.start receipts accounts) as i.call c ∧ c.Suits i :=
  (World.Called'.run h (.start E receipts accounts)).suits

end Suits

/-- A query that is answered. -/
theorem invocations_suit_query : ∃ w, run (World.step sampleEnv) newInstance
    [.call asyncQuery, .process, .enter, .message 0 queryAnswer] = some w ∧ w.log.length = 1 ∧
    ∀ i ∈ w.log, ∃ c, World.MadeBy sampleEnv newInstance
      [.call asyncQuery, .process, .enter, .message 0 queryAnswer] i.call c ∧ c.Suits i := by
  obtain ⟨w, hrun, hlog⟩ := (Option.any_eq_true _ _).mp (show (run (World.step sampleEnv) newInstance
    [.call asyncQuery, .process, .enter, .message 0 queryAnswer]).any (fun w => w.log.length = 1) = true by
      decide +kernel)
  exact ⟨w, hrun, of_decide_eq_true hlog, invocations_suit hrun⟩

/-! ### Subscriptions -/

/-- What a message of a stream comes to. -/
def Service.delivered (E : Env) : Service → Bytes → Option Outcome
  | .events, m => (E.codec.event m).map .event
  | .blocks, m => (E.codec.block m).map fun p => .block p.1 p.2
  | _, _ => none

/-- The message that an act brings for the request. -/
def Act.messageTo (r : ReqId) : Act → Option Bytes
  | .message x m => if x = r then some m else none
  | _ => none

/-- The messages that come for the request, in turn. -/
def messagesTo (r : ReqId) (as : List Act) : List Bytes := as.filterMap (Act.messageTo r)

/-- What was invoked for a call, in turn. -/
def World.history (w : World) (r : ReqId) : List Invocation := (w.log.filter fun i => i.call = r).reverse

/-- The request of a subscription. -/
structure World.Subscribed (w : World) (c : Call) (r : ReqId) : Prop where
  ok : w.Ok
  lt : r < w.next
  held : r ∈ w.requests
  fixed : (w.heap r).fixed = c.request.fixed
  childless : ∀ x, (w.heap x).parent ≠ some r

section Subscription

variable {E : Env} {w w' w₁ : World} {as : List Act} {a : Act} {r : ReqId} {c : Call} {m : Bytes}

/-- A subscription is not a transaction, has no error handler, and no receipt. -/
lemma Call.subscription_fields (hc : c.service.keepActive = true) :
    ¬ c.service.handler.IsTransaction ∧ c.service.errorHandler = none ∧ c.callback.isSome = true := by
  refine ⟨?_, ?_, c.stream hc⟩
  · rintro (h | h) <;> cases hs : c.service <;> rw [hs] at h hc <;> cases h <;> cases hc
  · cases hs : c.service <;> rw [hs] at hc <;> first | rfl | cases hc

/-- What the message of a subscription comes to for its request. -/
lemma Call.delivered_eq (hc : c.service.keepActive = true) {q : Request} (hq : q.fixed = c.request.fixed) (m : Bytes) :
    q.outcome E m = c.service.delivered E m := by
  have hhandler : q.processResponse = c.service.handler := Request.fixed_processResponse hq
  unfold Request.outcome
  rw [hhandler]
  cases hs : c.service <;> rw [hs] at hc <;> first | rfl | cases hc

lemma World.Subscribed.step (hw : w.Subscribed c r) (hc : c.service.keepActive = true) (h : w.step E a = some w') :
    w'.Subscribed c r where
  ok := hw.ok.step h
  lt := hw.lt.trans_le (World.step_next h).1
  held := by
    have hkeep : (w.heap r).keepActive = true := (Request.fixed_keepActive hw.fixed).trans hc
    have hnew : ∀ {p : Prop} [Decidable p], r ∈ if p then w.requests else w.requests ++ [w.next] := by
      intro p _
      split
      · exact hw.held
      · exact List.mem_append_left _ hw.held
    rw [World.step_requests_eq h]
    cases a with
    | call c => exact hnew
    | checkReceipts start => exact hnew
    | exit => exact List.mem_filter.mpr ⟨hw.held, by simp [Request.releasable, hkeep]⟩
    | _ => exact hw.held
  fixed := (World.step_fixed h hw.lt).trans hw.fixed
  childless x hx := by
    rcases Nat.lt_or_ge x w.next with hlt | hge
    · rw [Request.fixed_parent (World.step_fixed h hlt)] at hx
      exact hw.childless x hx
    · obtain ⟨rfl, ⟨c', -, -, hheap⟩ | ⟨-, p, -, -, hwants, hparent⟩⟩ := step_new h hge ((hw.ok.step h).child_lt hx)
      · rw [hheap] at hx
        cases hx
      · -- it would want a receipt
        obtain rfl := Option.some.inj (hparent.symm.trans hx)
        obtain ⟨-, hneed⟩ := World.wantingReceipt_eq_some hwants
        have htransaction := hw.ok.need p (World.wantsReceipt_iff.mp hneed).2.2.1
        rw [Request.fixed_processResponse hw.fixed] at htransaction
        exact (Call.subscription_fields hc).1 htransaction

/-- The invocation that an act brings for a subscription. -/
def Call.delivery (E : Env) (c : Call) (r : ReqId) (a : Act) : List Invocation :=
  (((a.messageTo r).bind (c.service.delivered E)).bind fun o => c.callback.map fun cb => ⟨r, cb, c.arg, o⟩).toList

/-- **One act** of a subscription. -/
lemma World.Subscribed.history_step (hw : w.Subscribed c r) (hc : c.service.keepActive = true)
    (h : w.step E a = some w') : w'.history r = w.history r ++ c.delivery E r a := by
  have hparent : (w.heap r).parent = none := Request.fixed_parent hw.fixed
  have hcall : w.callOf r = r := by simp [World.callOf, hparent]
  by_cases hmessage : ∃ m, a = .message r m
  · obtain ⟨m, rfl⟩ := hmessage
    simp only [World.step, Option.ite_none_right_eq_some, Option.some.injEq] at h
    obtain ⟨-, rfl⟩ := h
    have hinvocation : ∀ o, w.invocation r o = c.callback.map fun cb => ⟨r, cb, c.arg, o⟩ := by
      intro o
      have hcallback : (w.heap r).callback = c.callback := Request.fixed_callback hw.fixed
      have harg : (w.heap r).arg = c.arg := Request.fixed_arg hw.fixed
      rw [World.invocation, hcallback, hcall, harg]
    have hself : Act.messageTo r (.message r m) = some m := if_pos rfl
    have hmine : ∀ i ∈ c.delivery E r (.message r m), i.call = r := by
      intro i hi
      obtain ⟨o, -, hi⟩ := Option.bind_eq_some_iff.mp (Option.mem_toList.mp hi)
      obtain ⟨cb, -, rfl⟩ := Option.map_eq_some_iff.mp hi
      rfl
    have hlog : (processMessage E w r m).log = c.delivery E r (.message r m) ++ w.log := by
      rw [processMessage_log, Call.delivered_eq hc hw.fixed, Call.delivery, hself, Option.bind_some]
      congr 3
      funext o
      exact hinvocation o
    have hrev : (c.delivery E r (.message r m)).reverse = c.delivery E r (.message r m) := by
      unfold Call.delivery
      cases ((Act.messageTo r (.message r m)).bind (c.service.delivered E)).bind fun o =>
        c.callback.map fun cb => (⟨r, cb, c.arg, o⟩ : Invocation) <;> rfl
    have hfilter : (c.delivery E r (.message r m)).filter (fun i => i.call = r) = c.delivery E r (.message r m) :=
      List.filter_eq_self.mpr (by simpa using hmine)
    unfold World.history
    rw [hlog, List.filter_append, List.reverse_append, hfilter, hrev]
  · -- what other requests are told is for other calls
    obtain ⟨new, hlog, hnew⟩ := step_log h
    have hother : ∀ i ∈ new, ¬ i.call = r := by
      intro i hi heq
      have hothers : ∀ {x : ReqId} {o : Outcome}, w.invocation x o = some i → x = r := by
        intro x o hi
        obtain ⟨cb, -, rfl⟩ := Option.map_eq_some_iff.mp hi
        exact ((World.callOf_eq hparent).mp heq).resolve_right (hw.childless x)
      cases hnew i hi with
      | message ho hi =>
        obtain rfl := hothers hi
        exact hmessage ⟨_, rfl⟩
      | error hh he ho hi =>
        obtain rfl := hothers hi
        have herror : (w.heap _).processError = c.service.errorHandler := Request.fixed_processError hw.fixed
        rw [herror, (Call.subscription_fields hc).2.1] at hh
        cases hh
    have hnone : a.messageTo r = none := by
      cases a with
      | message x m =>
        refine if_neg fun hx => hmessage ⟨m, ?_⟩
        rw [hx]
      | _ => rfl
    have hempty : new.filter (fun i => i.call = r) = [] := List.filter_eq_nil_iff.mpr (by simpa using hother)
    unfold World.history
    rw [hlog, List.filter_append, hempty, List.nil_append, Call.delivery, hnone]
    simp

/-- **A subscription is told what comes for it**, in any run: its callback has been invoked once for each message of
its own that decodes, in turn, with what it decodes to, and never otherwise; and its request is there to the end. -/
theorem subscription_history {receipts : ℕ → TransactionReceipt} {accounts : ℕ → AccountState} {before after : List Act}
    {accepted : Bool} (hc : c.service.keepActive = true) (hs : c.start = .sent accepted)
    (hw : run (World.step E) (.start receipts accounts) before = some w) (hcall : w.step E (.call c) = some w₁)
    (hrun : run (World.step E) w₁ after = some w') :
    (∃ cb, c.callback = some cb ∧ w'.history w.next =
      ((messagesTo w.next after).filterMap (c.service.delivered E)).map fun o => ⟨w.next, cb, c.arg, o⟩) ∧
    w.next ∈ w'.requests := by
  have hcalled := World.Called'.run hw (.start E receipts accounts)
  obtain ⟨cb, hcb⟩ := Option.isSome_iff_exists.mp (c.stream hc)
  have hstart : c.start ≠ .noRequest := by
    rw [hs]
    nofun
  have hnothing : w₁.history w.next = [] := by
    have hlog : w₁.log = w.log := by
      simp only [World.step, Option.ite_none_right_eq_some, Option.some.injEq] at hcall
      obtain ⟨-, rfl⟩ := hcall
      exact World.call_log c
    have hother : ∀ i ∈ w.log, ¬ i.call = w.next := by
      intro i hi heq
      obtain ⟨c', hmade, -⟩ := hcalled.suits i hi
      exact (hmade.lt hw).ne heq
    unfold World.history
    rw [hlog, List.filter_eq_nil_iff.mpr (by simpa using hother), List.reverse_nil]
  have hsubscribed : w₁.Subscribed c w.next := by
    have hok := hcalled.ok.step hcall
    have hrequests := World.step_requests_eq hcall
    simp only [World.step, Option.ite_none_right_eq_some, Option.some.injEq] at hcall
    obtain ⟨-, rfl⟩ := hcall
    obtain ⟨hheap, hnext⟩ := World.call_made (w := w) hstart
    refine ⟨hok, (Nat.lt_succ_self _).trans_eq hnext.symm, ?_, congrArg Request.fixed hheap, fun x hx => ?_⟩
    · rw [hrequests]
      dsimp only
      rw [if_neg hstart]
      exact List.mem_append_right _ List.mem_cons_self
    · by_cases hne : x = w.next
      · rw [hne, hheap] at hx
        cases hx
      · rw [World.call_heap_ne _ _ hne] at hx
        exact (hcalled.ok.child x _ hx).1.false
  obtain ⟨hsubscribed', hhistory⟩ := run_collects (fun w' => w'.Subscribed c w.next) (fun w' => w'.history w.next)
    (fun v a v' hv h => ⟨hv.step hc h, hv.history_step hc h⟩) hsubscribed hrun
  refine ⟨⟨cb, hcb, ?_⟩, hsubscribed'.held⟩
  have hdeliveries : ∀ as : List Act, as.flatMap (c.delivery E w.next) =
      ((messagesTo w.next as).filterMap (c.service.delivered E)).map fun o => ⟨w.next, cb, c.arg, o⟩ := by
    intro as
    induction as with
    | nil => rfl
    | cons a as ih =>
      rw [List.flatMap_cons, ih]
      unfold messagesTo Call.delivery
      rw [List.filterMap_cons, hcb]
      cases a.messageTo w.next with
      | none => rfl
      | some m =>
        dsimp only
        rw [List.filterMap_cons, Option.bind_some]
        cases c.service.delivered E m <;> rfl
  rw [hhistory, hnothing, List.nil_append, hdeliveries]

end Subscription

/-- `aergo_contract_events_subscribe` -/
def eventsCall : Call where
  service := .events
  callback := some 4
  stream := fun _ => rfl
  wait := nofun
  arg := 2
  returnPtr := none
  returnSize := 0
  txnHash := Vector.replicate 32 0
  account := none
  start := .sent true

/-- Decoders that take the messages of two bytes for events. -/
def eventEnv : Env where
  codec := { sampleCodec with event := fun m => if m.length = 2 then some m else none }
  malloc _ := true
  stale q := q

end Libaergo
