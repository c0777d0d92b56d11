import Libaergo.Socket.Requests
import Libaergo.Lib.Runs

/-!
# The request loop (`aergo_process_requests__internal`)

An instance as a machine: API calls, `aergo_process_requests`, the steps of the running call of
`aergo_process_requests__internal`, and what libcurl does in between (error texts and messages in
`curl_multi_perform`, `CURLMSG_DONE` in `curl_multi_info_read`).  The fetch of a receipt of a synchronous
transaction calls the function again: the callers wait in a stack.

A user callback runs inside `curl_multi_perform` and may make API calls; there libcurl refuses
`curl_multi_perform`, so that a synchronous call returns false at once, and may refuse
`curl_multi_add_handle`, whose result nobody looks at.
-/

namespace Libaergo

open Lib

/-- The service of an API call, with the response handler it passes. -/
inductive Service where
  | transfer
  | contractCall
  | query
  | queryStateVar
  | events
  | receipt
  | blocks
  | blockchainStatus
  | accountState
  deriving DecidableEq

def Service.handler : Service → ResponseHandler
  | .transfer => .transfer
  | .contractCall => .contractCall
  | .query => .query
  | .queryStateVar => .queryStateVar
  | .events => .event
  | .receipt => .receipt
  | .blocks => .block
  | .blockchainStatus => .blockchainStatus
  | .accountState => .accountState

def Service.errorHandler : Service → Option ErrorHandler
  | .query => some .query
  | .queryStateVar => some .query
  | _ => none

/-- The service is a stream. -/
def Service.keepActive : Service → Bool
  | .events => true
  | .blocks => true
  | _ => false

/-- The service has no asynchronous form. -/
def Service.synchronous : Service → Bool
  | .blockchainStatus => true
  | .accountState => true
  | _ => false

/-- How the sending of a request goes: `new_request` returns null, `new_http_request` returns false, or
the easy handle is made, and libcurl accepts it or not. -/
inductive Start where
  | noRequest
  | noHandle
  | sent (accepted : Bool)
  deriving DecidableEq

/-- An API call that came as far as `new_request`.  The streams insist on a callback. -/
structure Call where
  service : Service
  callback : Option ℕ
  stream : service.keepActive = true → callback.isSome = true
  wait : service.synchronous = true → callback = none
  arg : ℕ
  returnPtr : Option ℕ
  returnSize : ℕ
  txnHash : Hash
  account : Option ℕ
  start : Start

def Call.request (c : Call) : Request :=
  { Request.blank c.service.handler with
    callback := c.callback
    arg := c.arg
    returnPtr := c.returnPtr
    returnSize := c.returnSize
    txnHash := c.txnHash
    account := c.account
    processError := c.service.errorHandler
    keepActive := c.service.keepActive }

/-- The request of `aergo_get_receipt__internal` for the transaction of the request `r`. -/
def Request.receiptFetch (q : Request) (r : ReqId) : Request :=
  { Request.blank .receipt with
    parent := some r
    txnHash := q.txnHash
    callback := q.callback
    arg := q.arg
    returnPtr := q.returnPtr
    processError := some .failedReceipt }

inductive Act where
  /-- An API call, at the top or from a user callback. -/
  | call (c : Call)
  /-- `aergo_process_requests`, at the top. -/
  | process
  /-- `loc_wait_again` -/
  | enter
  /-- A `grpc-message` header line, or the failed allocation of a response buffer. -/
  | error (r : ReqId) (text : Bytes)
  /-- The last byte of a message. -/
  | message (r : ReqId) (m : Bytes)
  /-- `curl_multi_perform` and `curl_multi_wait` return, with or without success. -/
  | curl (ok : Bool)
  /-- `CURLMSG_DONE` -/
  | done (r : ReqId)
  /-- `curl_multi_info_read` returns null. -/
  | infoEnd
  /-- A pass of `loc_check_receipts`, with the start of the fetch it may begin. -/
  | checkReceipts (start : Start)
  /-- The test of the main request. -/
  | checkMain
  /-- The release loop of `loc_exit`, and the return. -/
  | exit

namespace World

/-- Where the running call stands. -/
def pc (w : World) : Option Pc := w.running.map Frame.pc

/-- The running call goes on there. -/
def goto (w : World) (pc : Pc) : World :=
  { w with running := w.running.map fun f => { f with pc := pc } }

/-- `new_request`, with the contents that the caller fills in. -/
def newRequest (w : World) (q : Request) : World :=
  { w with
    requests := w.requests ++ [w.next]
    heap := Function.update w.heap w.next q
    next := w.next + 1 }

/-- The end of `new_http_request` for the last request: the counter goes up in any case. -/
def addHandle (w : World) (r : ReqId) (accepted : Bool) : World :=
  { w with
    attached := if accepted then r :: w.attached else w.attached
    transfers := w.transfers + 1 }

/-- An API call: asynchronous ones return, synchronous ones wait, or fail at once inside a callback. -/
def call (w : World) (c : Call) : World :=
  match c.start with
  | .noRequest => { w with returned := some false }
  | .noHandle => { w.newRequest c.request with returned := some false }
  | .sent accepted =>
    let r := w.next
    let w := (w.newRequest c.request).addHandle r accepted
    if c.callback.isSome then { w with returned := some true, accepted := r :: w.accepted }
    else if w.running.isSome then { w with returned := some false }
    else { w with running := some ⟨some r, false, .waitAgain⟩ }

/-- `aergo_process_requests` -/
def process (w : World) : World :=
  if w.requests = [] then w else { w with running := some ⟨none, false, .waitAgain⟩ }

/-- `CURLMSG_DONE`: the handle is removed. -/
def done (w : World) (r : ReqId) : World :=
  { w with attached := w.attached.erase r, transfers := w.transfers - 1 }

/-- The running call returns: to `loc_check_receipts` of the caller that fetches a receipt, which gives
it up if the fetch failed, or to the program. -/
def leave (w : World) : World :=
  match w.running with
  | none => w
  | some f =>
    match w.callers with
    | [] => { w with running := none, returned := f.main.map fun _ => f.success }
    | c :: cs =>
      let w := if f.success then w
        else (w.touch .loopVar c.fetching).modify c.fetching fun q => { q with needReceipt := false }
      { w with running := some ⟨c.main, false, .checkReceipts⟩, callers := cs }

/-- The request that `loc_check_receipts` finds. -/
def wantingReceipt (w : World) : Option ReqId :=
  w.requests.find? fun r => (w.heap r).wantsReceipt

/-- The fetch of the receipt of the request `r` is not begun. -/
def giveUpReceipt (w : World) (r : ReqId) : World :=
  w.modify r fun q => { q with needReceipt := false }

/-- `loc_check_receipts`: with a callback the fetch is sent and the loop goes on, without one the
function is called again. -/
def checkReceipts (w : World) (start : Start) : World :=
  match w.wantingReceipt with
  | none => w.goto .checkMain
  | some r =>
    let w := w.modify r fun q => { q with processingReceipt := true }
    match start with
    | .noRequest => w.giveUpReceipt r
    | .noHandle => (w.newRequest ((w.heap r).receiptFetch r)).giveUpReceipt r
    | .sent accepted =>
      let child := w.next
      let q := w.heap r
      let w := (w.newRequest (q.receiptFetch r)).addHandle child accepted
      if q.callback.isSome then w
      else
        { w with
          running := some ⟨some child, false, .waitAgain⟩
          callers := ⟨w.running.bind Frame.main, r⟩ :: w.callers }

/-- The test of `main_request`: it may have been released by a call that was made for a receipt. -/
def checkMain (E : Env) (w : World) : World :=
  match w.running.bind Frame.main with
  | none => w.goto .exit
  | some m =>
    let q := w.read E m
    let w := w.touch .main m
    if q.processed && !q.needReceipt then
      { w with running := w.running.map fun f => { f with success := q.success, pc := .exit } }
    else if 0 < w.transfers then w.goto .waitAgain
    else w.goto .exit

def release (w : World) : World :=
  { w with requests := w.requests.filter fun r => !(w.heap r).releasable }

/-- A receipt would be written through a null pointer. -/
def nullReceipt (w : World) (r : ReqId) : Prop :=
  (w.heap r).processResponse = .receipt ∧ (w.heap r).callback = none ∧ (w.heap r).returnPtr = none

instance (w : World) (r : ReqId) : Decidable (w.nullReceipt r) := by
  unfold nullReceipt
  infer_instance

/-- **One step**, if the act can happen. -/
def step (E : Env) (w : World) : Act → Option World
  | .call c => if w.pc = none ∨ w.pc = some .perform then some (w.call c) else none
  | .process => if w.pc = none then some w.process else none
  | .enter =>
    if w.pc = some .waitAgain then
      some (w.goto (if 0 < w.transfers then .perform else .checkReceipts))
    else none
  | .error r text =>
    if w.pc = some .perform ∧ r ∈ w.attached then some (processRequestError w r text) else none
  | .message r m =>
    if w.pc = some .perform ∧ r ∈ w.attached ∧ ¬ w.nullReceipt r then some (processMessage E w r m)
    else none
  | .curl ok =>
    if w.pc = some .perform then some (if ok then w.goto .infoRead else w.leave) else none
  | .done r => if w.pc = some .infoRead ∧ r ∈ w.attached then some (w.done r) else none
  | .infoEnd => if w.pc = some .infoRead then some (w.goto .checkReceipts) else none
  | .checkReceipts start =>
    if w.pc = some .checkReceipts then some (w.checkReceipts start) else none
  | .checkMain => if w.pc = some .checkMain then some (w.checkMain E) else none
  | .exit => if w.pc = some .exit then some w.release.leave else none

end World

/-! ### Sample calls -/

/-- A new instance of a program with untouched receipts and accounts. -/
def newInstance : World := .start (fun _ => .initial) (fun _ => ⟨false, 0⟩)

/-- `aergo_query_smart_contract_async` -/
def asyncQuery : Call where
  service := .query
  callback := some 0
  stream := nofun
  wait := nofun
  arg := 0
  returnPtr := none
  returnSize := 0
  txnHash := Vector.replicate 32 0
  account := none
  start := .sent true

/-- `aergo_transfer_async` for a transaction with the hash 9…9. -/
def asyncTransfer : Call where
  service := .transfer
  callback := some 0
  stream := nofun
  wait := nofun
  arg := 0
  returnPtr := none
  returnSize := 0
  txnHash := Vector.replicate 32 9
  account := none
  start := .sent true

/-- `aergo_transfer` for this transaction, with a receipt at 1. -/
def syncTransfer : Call where
  service := .transfer
  callback := none
  stream := nofun
  wait := nofun
  arg := 0
  returnPtr := some 1
  returnSize := 0
  txnHash := Vector.replicate 32 9
  account := none
  start := .sent true

end Libaergo
