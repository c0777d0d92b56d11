import Libaergo.Socket.Machine

/-!
# What a handler may change

The handlers leave the loop alone (`World.loop`), write to their own request and to its parent only, and
invoke callbacks of one call only; nothing changes the fields of a request that are set before it is
sent (`Request.fixed`).  `Within w w' x` says so of the two worlds around a handler of the request `x`;
what the invariants of the following modules need of an answer is derived from it.
-/

namespace Libaergo

open Lib

/-! ### The loop -/

/-- The parts of the world that the request loop works on. -/
structure Loop where
  requests : List ReqId
  next : ReqId
  attached : List ReqId
  transfers : ℤ
  running : Option Frame
  callers : List Caller
  accepted : List ReqId
  returned : Option Bool

/-- The part of the world that the request loop works on. -/
def World.loop (w : World) : Loop :=
  ⟨w.requests, w.next, w.attached, w.transfers, w.running, w.callers, w.accepted, w.returned⟩

/-- The call that a request works for: itself, or the call whose receipt it fetches. -/
def World.callOf (w : World) (r : ReqId) : ReqId := (w.heap r).parent.getD r

/-- The callbacks that were invoked for a call. -/
def World.invocations (w : World) (r : ReqId) : ℕ := w.log.countP fun i => i.call = r

namespace World

/-! ### The operations of the loop -/

/-- `request->processing_receipt = true` -/
def markReceipt (w : World) (r : ReqId) : World :=
  w.modify r fun q => { q with processingReceipt := true }

/-- The request for the receipt of `r`, which is marked. -/
def makeFetch (w : World) (r : ReqId) : World :=
  (w.markReceipt r).newRequest ((({ w.heap r with processingReceipt := true }) : Request).receiptFetch r)

/-- **The ways an API call goes.** -/
inductive Called (w : World) (c : Call) : World → Prop
  | noRequest (hs : c.start = .noRequest) : w.Called c { w with returned := some false }
  | noHandle (hs : c.start = .noHandle) :
    w.Called c { w.newRequest c.request with returned := some false }
  | async (accepted : Bool) (hs : c.start = .sent accepted) (hc : c.callback.isSome = true) :
    w.Called c { (w.newRequest c.request).addHandle w.next accepted with
      returned := some true, accepted := w.next :: w.accepted }
  | inside (accepted : Bool) (hs : c.start = .sent accepted) (hc : c.callback = none)
      (hr : w.running.isSome = true) :
    w.Called c { (w.newRequest c.request).addHandle w.next accepted with returned := some false }
  | waits (accepted : Bool) (hs : c.start = .sent accepted) (hc : c.callback = none)
      (hr : w.running = none) :
    w.Called c { (w.newRequest c.request).addHandle w.next accepted with
      running := some ⟨some w.next, false, .waitAgain⟩ }

lemma called (w : World) (c : Call) : w.Called c (w.call c) := by
  unfold World.call
  split
  · next hs => exact .noRequest hs
  · next hs => exact .noHandle hs
  · next accepted hs =>
    dsimp only
    split
    · next hc => exact .async accepted hs hc
    · next hc =>
      have hc' : c.callback = none := by simpa using hc
      split
      · next hr => exact .inside accepted hs hc' hr
      · next hr => exact .waits accepted hs hc' (Option.not_isSome_iff_eq_none.mp hr)

/-- **The ways a pass of `loc_check_receipts` goes.** -/
inductive Checked (w : World) (start : Start) : World → Prop
  | nothing (h : w.wantingReceipt = none) : w.Checked start (w.goto .checkMain)
  | noRequest (r : ReqId) (hr : w.wantingReceipt = some r) (hs : start = .noRequest) :
    w.Checked start ((w.markReceipt r).giveUpReceipt r)
  | noHandle (r : ReqId) (hr : w.wantingReceipt = some r) (hs : start = .noHandle) :
    w.Checked start ((w.makeFetch r).giveUpReceipt r)
  | async (r : ReqId) (accepted : Bool) (hr : w.wantingReceipt = some r) (hs : start = .sent accepted)
      (hc : (w.heap r).callback.isSome = true) :
    w.Checked start ((w.makeFetch r).addHandle w.next accepted)
  | nested (r : ReqId) (accepted : Bool) (hr : w.wantingReceipt = some r) (hs : start = .sent accepted)
      (hc : (w.heap r).callback = none) :
    w.Checked start { (w.makeFetch r).addHandle w.next accepted with
      running := some ⟨some w.next, false, .waitAgain⟩
      callers := ⟨w.running.bind Frame.main, r⟩ :: w.callers }

lemma checked (w : World) (start : Start) : w.Checked start (w.checkReceipts start) := by
  unfold World.checkReceipts
  split
  · next h => exact .nothing h
  · next r hr =>
    have hself : (w.modify r fun q => { q with processingReceipt := true }).heap r =
        { w.heap r with processingReceipt := true } := Function.update_self ..
    dsimp only
    rw [hself]
    split
    · exact .noRequest r hr rfl
    · exact .noHandle r hr rfl
    · next accepted =>
      split
      · next hc => exact .async r accepted hr rfl hc
      · next hc => exact .nested r accepted hr rfl (by simpa using hc)

/-- **The ways the test of the main request goes.** -/
inductive MainChecked (E : Env) (w : World) : World → Prop
  | noMain (hm : w.running.bind Frame.main = none) : w.MainChecked E (w.goto .exit)
  | settled (f : Frame) (m : ReqId) (hf : w.running = some f) (hm : f.main = some m)
      (hq : ((w.read E m).processed && !(w.read E m).needReceipt) = true) :
    w.MainChecked E { w.touch .main m with
      running := some { f with success := (w.read E m).success, pc := .exit } }
  | waits (f : Frame) (m : ReqId) (hf : w.running = some f) (hm : f.main = some m)
      (hq : ((w.read E m).processed && !(w.read E m).needReceipt) = false) (ht : 0 < w.transfers) :
    w.MainChecked E { w.touch .main m with running := some { f with pc := .waitAgain } }
  | ends (f : Frame) (m : ReqId) (hf : w.running = some f) (hm : f.main = some m)
      (hq : ((w.read E m).processed && !(w.read E m).needReceipt) = false) (ht : w.transfers ≤ 0) :
    w.MainChecked E { w.touch .main m with running := some { f with pc := .exit } }

lemma mainChecked (E : Env) (w : World) : w.MainChecked E (w.checkMain E) := by
  unfold World.checkMain
  split
  · next hm => exact .noMain hm
  · next m hm =>
    obtain ⟨f, hf, hm⟩ := Option.bind_eq_some_iff.mp hm
    have h : (w.touch .main m).transfers = w.transfers ∧ (w.touch .main m).running = some f := by
      unfold touch
      split <;> exact ⟨rfl, hf⟩
    obtain ⟨htr, hrun⟩ := h
    unfold World.goto
    dsimp only
    rw [hrun]
    split
    · next hq => exact .settled f m hf hm hq
    · next hq =>
      have hq' := Bool.eq_false_iff.mpr hq
      split
      · next ht => exact .waits f m hf hm hq' (htr ▸ ht)
      · next ht => exact .ends f m hf hm hq' (htr ▸ not_lt.mp ht)

section Basic

variable (w : World) (r : ReqId) (f : Request → Request) (kind : UseKind) (p : Option ℕ)
  (receipt : TransactionReceipt) (o : Outcome)

@[simp] lemma touch_loop : (w.touch kind r).loop = w.loop := by
  unfold touch
  split <;> rfl

@[simp] lemma setReceipt_loop : (w.setReceipt p receipt).loop = w.loop := by
  cases p <;> rfl

@[simp] lemma invoke_loop : (w.invoke r o).loop = w.loop := by
  unfold invoke
  split <;> rfl

@[simp] lemma modify_heap_self : (w.modify r f).heap r = f (w.heap r) := Function.update_self ..

lemma modify_heap_ne {x : ReqId} (h : x ≠ r) : (w.modify r f).heap x = w.heap x :=
  Function.update_of_ne h ..

@[simp] lemma touch_heap : (w.touch kind r).heap = w.heap := by
  unfold touch
  split <;> rfl

@[simp] lemma setReceipt_heap : (w.setReceipt p receipt).heap = w.heap := by
  cases p <;> rfl

@[simp] lemma invoke_heap : (w.invoke r o).heap = w.heap := by
  unfold invoke
  split <;> rfl

@[simp] lemma modify_log : (w.modify r f).log = w.log := rfl

@[simp] lemma touch_log : (w.touch kind r).log = w.log := by
  unfold touch
  split <;> rfl

@[simp] lemma setReceipt_log : (w.setReceipt p receipt).log = w.log := by
  cases p <;> rfl

@[simp] lemma setReceipt_uses : (w.setReceipt p receipt).uses = w.uses := by
  cases p <;> rfl

@[simp] lemma invoke_uses : (w.invoke r o).uses = w.uses := by
  unfold invoke
  split <;> rfl

@[simp] lemma touch_receipts : (w.touch kind r).receipts = w.receipts := by
  unfold touch
  split <;> rfl

@[simp] lemma invoke_receipts : (w.invoke r o).receipts = w.receipts := by
  unfold invoke
  split <;> rfl

@[simp] lemma touch_accounts : (w.touch kind r).accounts = w.accounts := by
  unfold touch
  split <;> rfl

@[simp] lemma setReceipt_accounts : (w.setReceipt p receipt).accounts = w.accounts := by
  cases p <;> rfl

@[simp] lemma invoke_accounts : (w.invoke r o).accounts = w.accounts := by
  unfold invoke
  split <;> rfl

@[simp] lemma newRequest_heap_next (q : Request) : (w.newRequest q).heap w.next = q :=
  Function.update_self ..

lemma newRequest_heap_ne (q : Request) {x : ReqId} (h : x ≠ w.next) :
    (w.newRequest q).heap x = w.heap x := Function.update_of_ne h ..

@[simp] lemma markReceipt_heap_self :
    (w.markReceipt r).heap r = { w.heap r with processingReceipt := true } := Function.update_self ..

lemma markReceipt_heap_ne {x : ReqId} (h : x ≠ r) : (w.markReceipt r).heap x = w.heap x :=
  Function.update_of_ne h ..

@[simp] lemma giveUpReceipt_heap_self :
    (w.giveUpReceipt r).heap r = { w.heap r with needReceipt := false } := Function.update_self ..

lemma giveUpReceipt_heap_ne {x : ReqId} (h : x ≠ r) : (w.giveUpReceipt r).heap x = w.heap x :=
  Function.update_of_ne h ..

@[simp] lemma makeFetch_heap_next : (w.makeFetch r).heap w.next =
    (({ w.heap r with processingReceipt := true }) : Request).receiptFetch r := Function.update_self ..

lemma makeFetch_heap_of_ne_next {x : ReqId} (h : x ≠ w.next) :
    (w.makeFetch r).heap x = (w.markReceipt r).heap x := Function.update_of_ne h ..

lemma call_heap_ne (c : Call) {x : ReqId} (h : x ≠ w.next) : (w.call c).heap x = w.heap x := by
  have hc := w.called c
  generalize w.call c = v at hc ⊢
  cases hc with
  | noRequest => rfl
  | noHandle => exact newRequest_heap_ne _ _ h
  | async => exact newRequest_heap_ne _ _ h
  | inside => exact newRequest_heap_ne _ _ h
  | waits => exact newRequest_heap_ne _ _ h

end Basic

section Basic

variable {w : World} {r x : ReqId} {kind : UseKind} {o : Outcome}

lemma mem_touch_uses {u : UseKind × ReqId} :
    u ∈ (w.touch kind r).uses ↔ u ∈ w.uses ∨ u = (kind, r) ∧ r ∉ w.requests := by
  unfold touch
  split
  · next h => simp [h]
  · next h => simp [h, or_comm]

lemma invocations_congr {w' : World} (h : w'.log = w.log) (r : ReqId) :
    w'.invocations r = w.invocations r := by
  unfold invocations
  rw [h]

lemma invocations_invoke_self (h : (w.heap r).callback ≠ none) :
    (w.invoke r o).invocations (w.callOf r) = w.invocations (w.callOf r) + 1 := by
  obtain ⟨cb, hcb⟩ := Option.ne_none_iff_exists'.mp h
  simp [invoke, hcb, invocations, callOf]

lemma invocations_invoke_ne (h : x ≠ w.callOf r) : (w.invoke r o).invocations x = w.invocations x := by
  unfold invoke
  split
  · rfl
  · simp only [invocations]
    apply List.countP_cons_of_neg
    simpa [callOf] using fun heq => h heq.symm

end Basic

/-! ### The return of a call -/

section Leave

variable (w : World)

lemma leave_loop : w.leave.loop =
    { w.loop with
      running := w.leave.running
      callers := w.leave.callers
      returned := w.leave.returned } := by
  unfold leave
  split
  · rfl
  · split
    · rfl
    · next c cs hc =>
      split
      · rfl
      · have h := w.touch_loop c.fetching .loopVar
        simp only [loop, modify, Loop.mk.injEq] at h ⊢
        simp [h]

@[simp] lemma leave_requests : w.leave.requests = w.requests := congrArg Loop.requests w.leave_loop

@[simp] lemma leave_next : w.leave.next = w.next := congrArg Loop.next w.leave_loop

@[simp] lemma leave_attached : w.leave.attached = w.attached := congrArg Loop.attached w.leave_loop

@[simp] lemma leave_transfers : w.leave.transfers = w.transfers := congrArg Loop.transfers w.leave_loop

@[simp] lemma leave_accepted : w.leave.accepted = w.accepted := congrArg Loop.accepted w.leave_loop

@[simp] lemma leave_log : w.leave.log = w.log := by
  unfold leave
  split
  · rfl
  · split
    · rfl
    · split
      · rfl
      · exact touch_log ..

@[simp] lemma leave_receipts : w.leave.receipts = w.receipts := by
  unfold leave
  split
  · rfl
  · split
    · rfl
    · split
      · rfl
      · exact touch_receipts ..

@[simp] lemma leave_accounts : w.leave.accounts = w.accounts := by
  unfold leave
  split
  · rfl
  · split
    · rfl
    · split
      · rfl
      · exact touch_accounts ..

/-- A call that ends without success gives up the receipt that its caller fetches. -/
lemma leave_heap (x : ReqId) :
    w.leave.heap x = w.heap x ∨
      (∃ f c, w.running = some f ∧ f.success = false ∧ w.callers.head? = some c ∧ c.fetching = x) ∧
        w.leave.heap x = { w.heap x with needReceipt := false } := by
  unfold leave
  split
  · exact .inl rfl
  · next f hf =>
    split
    · exact .inl rfl
    · next c cs hc =>
      split
      · exact .inl rfl
      · next hsucc =>
        by_cases hx : x = c.fetching
        · subst hx
          refine .inr ⟨⟨f, c, hf, by simpa using hsucc, by simp [hc], rfl⟩, ?_⟩
          simp
        · left
          simp [modify_heap_ne, hx]

end Leave

end World

/-! ### The fields that never change -/

/-- A request without the fields that are written after it was sent. -/
def Request.fixed (q : Request) : Request :=
  { q with
    processed := false
    success := false
    errorMsg := none
    needReceipt := false
    processingReceipt := false
    receiptAttempts := 0 }

section Fixed

variable {q q' : Request} (h : q'.fixed = q.fixed)

include h

lemma Request.fixed_parent : q'.parent = q.parent := congrArg (fun q => q.parent) h

lemma Request.fixed_callback : q'.callback = q.callback := congrArg (fun q => q.callback) h

lemma Request.fixed_processResponse : q'.processResponse = q.processResponse :=
  congrArg (fun q => q.processResponse) h

lemma Request.fixed_processError : q'.processError = q.processError :=
  congrArg (fun q => q.processError) h

lemma Request.fixed_keepActive : q'.keepActive = q.keepActive := congrArg (fun q => q.keepActive) h

lemma Request.fixed_returnPtr : q'.returnPtr = q.returnPtr := congrArg (fun q => q.returnPtr) h

lemma Request.fixed_account : q'.account = q.account := congrArg (fun q => q.account) h

lemma Request.fixed_txnHash : q'.txnHash = q.txnHash := congrArg (fun q => q.txnHash) h

end Fixed

/-- The response is that to a transaction. -/
def ResponseHandler.IsTransaction (h : ResponseHandler) : Prop := h = .transfer ∨ h = .contractCall

/-! ### Within a handler -/

/-- The worlds before and after a part of a handler of the request `x`. -/
structure Within (x : ReqId) (w w' : World) : Prop where
  loop : w'.loop = w.loop
  fixed : ∀ y, (w'.heap y).fixed = (w.heap y).fixed
  /-- Only the request and its parent are written to. -/
  frame : ∀ y, y ≠ x → (w.heap x).parent ≠ some y → w'.heap y = w.heap y
  processed : ∀ y, (w.heap y).processed = true → (w'.heap y).processed = true
  success : ∀ y, y ≠ x → (w'.heap y).success = (w.heap y).success
  /-- A receipt is wanted of transactions only. -/
  need : ∀ y, (w'.heap y).needReceipt = true →
    (w.heap y).needReceipt = true ∨ y = x ∧ (w.heap x).processResponse.IsTransaction
  invocations : ∀ r, r ≠ w.callOf x → w'.invocations r = w.invocations r
  uses : ∀ u ∈ w'.uses, u ∈ w.uses ∨ u = (.transfer, x) ∧ x ∉ w.requests ∨
    ∃ p, (w.heap x).parent = some p ∧ u = (.parent, p) ∧ p ∉ w.requests
  receipts : ∀ p, (w.heap x).returnPtr ≠ some p → w'.receipts p = w.receipts p
  accounts : ∀ p, (w.heap x).account ≠ some p → w'.accounts p = w.accounts p

namespace Within

variable {x p : ReqId} {w w' w'' : World} {E : Env} {m : Bytes} {o : Outcome}

lemma refl (x : ReqId) (w : World) : Within x w w where
  loop := rfl
  fixed _ := rfl
  frame _ _ _ := rfl
  processed _ h := h
  success _ _ := rfl
  need _ h := .inl h
  invocations _ _ := rfl
  uses _ h := .inl h
  receipts _ _ := rfl
  accounts _ _ := rfl

lemma requests (h : Within x w w') : w'.requests = w.requests := congrArg Loop.requests h.loop

lemma callOf (h : Within x w w') (y : ReqId) : w'.callOf y = w.callOf y := by
  unfold World.callOf
  rw [Request.fixed_parent (h.fixed y)]

lemma trans (h : Within x w w') (h' : Within x w' w'') : Within x w w'' where
  loop := h'.loop.trans h.loop
  fixed y := (h'.fixed y).trans (h.fixed y)
  frame y hy hp := by
    have hp' : (w'.heap x).parent ≠ some y := by rwa [Request.fixed_parent (h.fixed x)]
    exact (h'.frame y hy hp').trans (h.frame y hy hp)
  processed y hy := h'.processed y (h.processed y hy)
  success y hy := (h'.success y hy).trans (h.success y hy)
  need y hy := by
    rcases h'.need y hy with hy' | ⟨rfl, ht⟩
    · exact h.need y hy'
    · rw [Request.fixed_processResponse (h.fixed y)] at ht
      exact .inr ⟨rfl, ht⟩
  invocations r hr := by
    have hr' : r ≠ w'.callOf x := by rwa [h.callOf]
    exact (h'.invocations r hr').trans (h.invocations r hr)
  uses u hu := by
    have hu' := h'.uses u hu
    rw [h.requests, Request.fixed_parent (h.fixed x)] at hu'
    rcases hu' with hu' | hu'
    · exact h.uses u hu'
    · exact .inr hu'
  receipts p hp := by
    have hp' : (w'.heap x).returnPtr ≠ some p := by rwa [Request.fixed_returnPtr (h.fixed x)]
    exact (h'.receipts p hp').trans (h.receipts p hp)
  accounts p hp := by
    have hp' : (w'.heap x).account ≠ some p := by rwa [Request.fixed_account (h.fixed x)]
    exact (h'.accounts p hp').trans (h.accounts p hp)

/-! ### The primitives -/

/-- A write to the request or to its parent that leaves the fixed fields. -/
lemma modify {y : ReqId} {f : Request → Request} (hy : y = x ∨ (w.heap x).parent = some y)
    (hf : ∀ q, (f q).fixed = q.fixed) (hp : ∀ q, q.processed = true → (f q).processed = true)
    (hs : y = x ∨ ∀ q, (f q).success = q.success)
    (hn : (f (w.heap y)).needReceipt = true →
      (w.heap y).needReceipt = true ∨ y = x ∧ (w.heap x).processResponse.IsTransaction) :
    Within x w (w.modify y f) where
  loop := rfl
  fixed z := by
    by_cases hz : z = y
    · subst hz
      rw [World.modify_heap_self]
      exact hf _
    · rw [World.modify_heap_ne _ _ _ hz]
  frame z hz hz' := by
    apply World.modify_heap_ne
    rintro rfl
    exact hy.elim hz hz'
  processed z hz := by
    by_cases hzy : z = y
    · subst hzy
      rw [World.modify_heap_self]
      exact hp _ hz
    · rwa [World.modify_heap_ne _ _ _ hzy]
  success z hz := by
    by_cases hzy : z = y
    · subst hzy
      rw [World.modify_heap_self]
      exact hs.resolve_left hz _
    · rw [World.modify_heap_ne _ _ _ hzy]
  need z hz := by
    by_cases hzy : z = y
    · subst hzy
      rw [World.modify_heap_self] at hz
      exact hn hz
    · rw [World.modify_heap_ne _ _ _ hzy] at hz
      exact .inl hz
  invocations _ _ := rfl
  uses _ h := .inl h
  receipts _ _ := rfl
  accounts _ _ := rfl

lemma touch {kind : UseKind} {y : ReqId}
    (hy : kind = .transfer ∧ y = x ∨ kind = .parent ∧ (w.heap x).parent = some y) : Within x w (w.touch kind y) where
  loop := w.touch_loop y kind
  fixed _ := by rw [World.touch_heap]
  frame _ _ _ := by rw [World.touch_heap]
  processed _ h := by rwa [World.touch_heap]
  success _ _ := by rw [World.touch_heap]
  need _ h := by
    rw [World.touch_heap] at h
    exact .inl h
  invocations r _ := World.invocations_congr (World.touch_log ..) r
  uses u hu := by
    rcases World.mem_touch_uses.mp hu with hu | ⟨rfl, hreleased⟩
    · exact .inl hu
    · rcases hy with ⟨rfl, rfl⟩ | ⟨rfl, hp⟩
      · exact .inr (.inl ⟨rfl, hreleased⟩)
      · exact .inr (.inr ⟨y, hp, rfl, hreleased⟩)
  receipts p _ := by rw [World.touch_receipts]
  accounts p _ := by rw [World.touch_accounts]

lemma touch_transfer (x : ReqId) (w : World) : Within x w (w.touch .transfer x) := touch (.inl ⟨rfl, rfl⟩)

lemma touch_parent (hp : (w.heap x).parent = some p) : Within x w (w.touch .parent p) := touch (.inr ⟨rfl, hp⟩)

lemma invoke (x : ReqId) (w : World) (o : Outcome) : Within x w (w.invoke x o) where
  loop := w.invoke_loop x o
  fixed _ := by rw [World.invoke_heap]
  frame _ _ _ := by rw [World.invoke_heap]
  processed _ h := by rwa [World.invoke_heap]
  success _ _ := by rw [World.invoke_heap]
  need _ h := by
    rw [World.invoke_heap] at h
    exact .inl h
  invocations _ hr := World.invocations_invoke_ne hr
  uses u hu := by
    rw [World.invoke_uses] at hu
    exact .inl hu
  receipts p _ := by rw [World.invoke_receipts]
  accounts p _ := by rw [World.invoke_accounts]

lemma setReceipt (x : ReqId) (w : World) (receipt : TransactionReceipt) :
    Within x w (w.setReceipt (w.heap x).returnPtr receipt) where
  loop := w.setReceipt_loop _ receipt
  fixed _ := by rw [World.setReceipt_heap]
  frame _ _ _ := by rw [World.setReceipt_heap]
  processed _ h := by rwa [World.setReceipt_heap]
  success _ _ := by rw [World.setReceipt_heap]
  need _ h := by
    rw [World.setReceipt_heap] at h
    exact .inl h
  invocations r _ := World.invocations_congr (World.setReceipt_log ..) r
  uses u hu := by
    rw [World.setReceipt_uses] at hu
    exact .inl hu
  receipts p hp := by
    unfold World.setReceipt
    split
    · rfl
    · next p' hp' =>
      apply Function.update_of_ne
      rintro rfl
      exact hp hp'
  accounts p _ := by rw [World.setReceipt_accounts]

/-! ### The handlers -/

lemma settleParent (x : ReqId) (w : World) : Within x w (settleParent w x) := by
  unfold Libaergo.settleParent
  split
  · exact refl x w
  · next p hp =>
    have ht := touch_parent hp
    refine ht.trans (modify (.inr ?_) (fun _ => rfl) (fun _ h => h) (.inr fun _ => rfl) fun h => ?_)
    · rwa [World.touch_heap]
    · cases h

lemma handleTransferResponse (hx : (w.heap x).processResponse.IsTransaction) :
    Within x w (handleTransferResponse E w x m).2 := by
  unfold Libaergo.handleTransferResponse
  split
  · exact refl x w
  · split
    · dsimp only
      apply modify (.inl rfl)
      · exact fun _ => rfl
      · exact fun _ h => h
      · exact .inl rfl
      · exact fun _ => .inr ⟨rfl, hx⟩
    · exact setReceipt x w _

lemma handleReceiptResponse (E : Env) (w : World) (x : ReqId) (m : Bytes) :
    Within x w (handleReceiptResponse E w x m).2 := by
  unfold Libaergo.handleReceiptResponse
  split
  · refine trans ?_ (settleParent x _)
    split
    · exact refl x w
    · exact setReceipt x w _
  · refine trans ?_ (settleParent x _)
    split
    · exact invoke x w _
    · exact setReceipt x w _

lemma processResponse (E : Env) (w : World) (x : ReqId) (m : Bytes) :
    Within x w (processResponse E w x m).2 := by
  unfold Libaergo.processResponse
  split
  · next h => exact handleTransferResponse (.inl h)
  · next h => exact handleTransferResponse (.inr h)
  · unfold handleQueryResponse
    split
    · split
      · exact refl x w
      · exact invoke x w _
    · exact refl x w
  · unfold handleQueryStateVarResponse
    split
    · split
      · exact refl x w
      · exact invoke x w _
    · exact refl x w
  · unfold handleEventResponse
    split
    · exact refl x w
    · exact invoke x w _
  · exact handleReceiptResponse E w x m
  · unfold handleBlockResponse
    split
    · exact refl x w
    · exact invoke x w _
  · exact ⟨rfl, fun _ => rfl, fun _ _ _ => rfl, fun _ h => h, fun _ _ => rfl, fun _ h => .inl h, fun _ _ => rfl,
      fun _ h => .inl h, fun _ _ => rfl, fun _ _ => rfl⟩
  · unfold handleAccountStateResponse
    split
    · next a nonce ha _ =>
      refine ⟨rfl, fun _ => rfl, fun _ _ _ => rfl, fun _ h => h, fun _ _ => rfl, fun _ h => .inl h, fun _ _ => rfl,
        fun _ h => .inl h, fun _ _ => rfl, fun p hp => Function.update_of_ne ?_ ..⟩
      rintro rfl
      exact hp ha
    · exact refl x w

/-- **A message changes only what belongs to its request.** -/
theorem processMessage (E : Env) (w : World) (x : ReqId) (m : Bytes) :
    Within x w (processMessage E w x m) := by
  have h1 := touch_transfer x w
  have h2 : Within x w ((w.touch .transfer x).modify x fun q => { q with processed := true }) :=
    h1.trans (modify (.inl rfl) (fun _ => rfl) (fun _ _ => rfl) (.inl rfl) fun h => .inl h)
  have h3 := h2.trans (processResponse E _ x m)
  exact h3.trans (modify (f := fun q => { q with success := _ }) (.inl rfl) (fun _ => rfl)
    (fun _ h => h) (.inl rfl) fun h => .inl h)

lemma giveUp (hp : (w.heap x).parent = some p) :
    Within x w (w.modify p fun q => { q with needReceipt := false }) := by
  apply modify (.inr hp)
  · exact fun _ => rfl
  · exact fun _ h => h
  · exact .inr fun _ => rfl
  · exact fun h => nomatch h

lemma onFailedReceipt (w : World) (x : ReqId) : Within x w (onFailedReceipt w x).2 := by
  unfold Libaergo.onFailedReceipt
  simp only
  split
  · exact invoke x w _
  · next p hp =>
    have ht := touch_parent hp
    have hp' : ((w.touch .parent p).heap x).parent = some p := by rwa [World.touch_heap]
    split
    · have ha := ht.trans (modify (f := fun q => { q with receiptAttempts := q.receiptAttempts + 1 })
        (.inr hp') (fun _ => rfl) (fun _ h => h) (.inr fun _ => rfl) fun h => .inl h)
      have hpa := (Request.fixed_parent (ha.fixed x)).trans hp
      split
      · exact (ha.trans (giveUp hpa)).trans (invoke x _ _)
      · exact ha.trans (modify (f := fun q => { q with processingReceipt := false }) (.inr hpa)
          (fun _ => rfl) (fun _ h => h) (.inr fun _ => rfl) fun h => .inl h)
    · exact (ht.trans (giveUp hp')).trans (invoke x _ _)

lemma processError (w : World) (x : ReqId) (h : ErrorHandler) : Within x w (processError w x h).2 := by
  cases h with
  | query => exact invoke x w _
  | failedReceipt => exact onFailedReceipt w x

/-- **An error text changes only what belongs to its request.** -/
theorem processRequestError (w : World) (x : ReqId) (text : Bytes) :
    Within x w (processRequestError w x text) := by
  unfold Libaergo.processRequestError
  have h1 := touch_transfer x w
  have h2 : Within x w ((w.touch .transfer x).modify x fun q =>
      { q with processed := true, errorMsg := q.errorMsg.or (some text) }) :=
    h1.trans (modify (.inl rfl) (fun _ => rfl) (fun _ _ => rfl) (.inl rfl) fun h => .inl h)
  simp only
  split
  · exact h2
  · exact (h2.trans (processError _ x _)).trans
      (modify (.inl rfl) (fun _ => rfl) (fun _ h => h) (.inl rfl) fun h => .inl h)

end Within

/-! ### Uses of released requests -/

section Uses

variable {E : Env} {w w' : World} {a : Act} {u : UseKind × ReqId}

/-- The uses of a released request that an act can make. -/
inductive World.UsedBy (w : World) : Act → UseKind × ReqId → Prop
  | errorTransfer {x : ReqId} {text : Bytes} (hx : x ∈ w.attached) (h : x ∉ w.requests) :
    w.UsedBy (.error x text) (.transfer, x)
  | errorParent {x p : ReqId} {text : Bytes} (hx : x ∈ w.attached)
      (hp : (w.heap x).parent = some p) (h : p ∉ w.requests) :
    w.UsedBy (.error x text) (.parent, p)
  | messageTransfer {x : ReqId} {m : Bytes} (hx : x ∈ w.attached) (h : x ∉ w.requests) :
    w.UsedBy (.message x m) (.transfer, x)
  | messageParent {x p : ReqId} {m : Bytes} (hx : x ∈ w.attached)
      (hp : (w.heap x).parent = some p) (h : p ∉ w.requests) :
    w.UsedBy (.message x m) (.parent, p)
  | main {f : Frame} {m : ReqId} (hf : w.running = some f) (hm : f.main = some m)
      (h : m ∉ w.requests) :
    w.UsedBy .checkMain (.main, m)
  | curl {f : Frame} {c : Caller} (hf : w.running = some f) (hs : f.success = false)
      (hc : w.callers.head? = some c) (h : c.fetching ∉ w.requests) :
    w.UsedBy (.curl false) (.loopVar, c.fetching)
  | exit {f : Frame} {c : Caller} (hf : w.running = some f) (hs : f.success = false)
      (hc : w.callers.head? = some c) (h : c.fetching ∉ w.release.requests) :
    w.UsedBy .exit (.loopVar, c.fetching)

namespace World

lemma leave_uses (hu : u ∈ w.leave.uses) :
    u ∈ w.uses ∨ ∃ f c, w.running = some f ∧ f.success = false ∧ w.callers.head? = some c ∧
      c.fetching ∉ w.requests ∧ u = (.loopVar, c.fetching) := by
  unfold leave at hu
  split at hu
  · exact .inl hu
  · next f hf =>
    split at hu
    · exact .inl hu
    · next c cs hc =>
      split at hu
      · exact .inl hu
      · next hsucc =>
        rcases mem_touch_uses.mp hu with hu | ⟨rfl, hr⟩
        · exact .inl hu
        · exact .inr ⟨f, c, hf, by simpa using hsucc, by simp [hc], hr, rfl⟩

lemma checkMain_uses (hu : u ∈ (w.checkMain E).uses) :
    u ∈ w.uses ∨ ∃ f m, w.running = some f ∧ f.main = some m ∧ m ∉ w.requests ∧ u = (.main, m) := by
  unfold checkMain at hu
  split at hu
  · exact .inl hu
  · next m hm =>
    have hu' : u ∈ (w.touch .main m).uses := by
      dsimp only at hu
      split at hu
      · exact hu
      · split at hu <;> exact hu
    rcases mem_touch_uses.mp hu' with hu | ⟨rfl, hr⟩
    · exact .inl hu
    · obtain ⟨f, hf, hm⟩ := Option.bind_eq_some_iff.mp hm
      exact .inr ⟨f, m, hf, hm, hr, rfl⟩

/-- **Where a released request is used.** -/
theorem step_uses (h : w.step E a = some w') (hu : u ∈ w'.uses) : u ∈ w.uses ∨ w.UsedBy a u := by
  cases a <;> simp only [step, Option.ite_none_right_eq_some, Option.some.injEq] at h <;>
    obtain ⟨hpc, rfl⟩ := h
  case error x text =>
    rcases (Within.processRequestError w x text).uses u hu with hu | ⟨rfl, hr⟩ | ⟨p, hp, rfl, hr⟩
    · exact .inl hu
    · exact .inr (.errorTransfer hpc.2 hr)
    · exact .inr (.errorParent hpc.2 hp hr)
  case message x m =>
    rcases (Within.processMessage E w x m).uses u hu with hu | ⟨rfl, hr⟩ | ⟨p, hp, rfl, hr⟩
    · exact .inl hu
    · exact .inr (.messageTransfer hpc.2.1 hr)
    · exact .inr (.messageParent hpc.2.1 hp hr)
  case curl ok =>
    cases ok with
    | true => exact .inl hu
    | false =>
      rcases leave_uses hu with hu | ⟨f, c, hf, hs, hc, hr, rfl⟩
      · exact .inl hu
      · exact .inr (.curl hf hs hc hr)
  case exit =>
    rcases leave_uses hu with hu | ⟨f, c, hf, hs, hc, hr, rfl⟩
    · exact .inl hu
    · exact .inr (.exit hf hs hc hr)
  case checkMain =>
    rcases checkMain_uses hu with hu | ⟨f, m, hf, hm, hr, rfl⟩
    · exact .inl hu
    · exact .inr (.main hf hm hr)
  case call c =>
    left
    unfold World.call at hu
    split at hu
    · exact hu
    · exact hu
    · dsimp only at hu
      split at hu
      · exact hu
      · split at hu <;> exact hu
  case process =>
    left
    unfold World.process at hu
    split at hu <;> exact hu
  case checkReceipts start =>
    left
    unfold World.checkReceipts at hu
    split at hu
    · exact hu
    · dsimp only at hu
      split at hu
      · exact hu
      · exact hu
      · split at hu <;> exact hu
  all_goals exact .inl hu

end World

end Uses

end Libaergo
