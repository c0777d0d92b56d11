import Libaergo.Txn.ChainId
import Mathlib.Logic.Function.Basic
import Mathlib.Data.List.Infix

/-!
# Requests and their handlers (`aergo.c`, `socket.c`)

The requests of an instance: the list `instance->requests`, the objects behind it, and what the response
and error handlers do to them.  An object keeps its contents after `free_request`, and every access to a
released object is noted, so that "used after free" is a statement about the world.

The decoding of the messages is a parameter (`Codec`); what the program itself copies out of them is
kept.  The result buffers of the synchronous queries are left out.
-/

namespace Libaergo

open Lib

/-- A request object.  Here it is never used again, where `malloc` may give its address to another after
`free_request`; nothing shows as long as no released request is written to (`World.SparesReleased`). -/
abbrev ReqId := ℕ

/-- `process_response` -/
inductive ResponseHandler where
  | transfer
  | contractCall
  | query
  | queryStateVar
  | event
  | receipt
  | block
  | blockchainStatus
  | accountState
  deriving DecidableEq

/-- `process_error` -/
inductive ErrorHandler where
  | query
  | failedReceipt
  deriving DecidableEq

/-- `struct request`; the fields of the receive path are those of `Receiver`. -/
structure Request where
  parent : Option ReqId
  account : Option ℕ
  txnHash : Hash
  callback : Option ℕ
  arg : ℕ
  returnPtr : Option ℕ
  returnSize : ℕ
  processResponse : ResponseHandler
  processError : Option ErrorHandler
  processed : Bool
  success : Bool
  errorMsg : Option Bytes
  needReceipt : Bool
  processingReceipt : Bool
  receiptAttempts : ℕ
  keepActive : Bool

/-- `memset(request, 0, sizeof(struct request))` with a response handler. -/
def Request.blank (h : ResponseHandler) : Request where
  parent := none
  account := none
  txnHash := Vector.replicate 32 0
  callback := none
  arg := 0
  returnPtr := none
  returnSize := 0
  processResponse := h
  processError := none
  processed := false
  success := false
  errorMsg := none
  needReceipt := false
  processingReceipt := false
  receiptAttempts := 0
  keepActive := false

/-- The request is one of those that `loc_check_receipts` looks for. -/
def Request.wantsReceipt (q : Request) : Bool :=
  q.processed && q.success && q.needReceipt && !q.processingReceipt

/-- The request is one of those that `loc_exit` releases. -/
def Request.releasable (q : Request) : Bool := q.processed && !q.needReceipt && !q.keepActive

/-! ### What is decoded -/

structure CommitResult where
  error : ℕ
  detail : Option Bytes

/-- What `handle_receipt_response` copies out of a `Receipt`. -/
structure Receipt where
  contractAddress : Bytes
  status : Bytes
  ret : Bytes
  txHash : Bytes
  blockHash : Bytes
  feeUsed : Bytes
  gasUsed : ℕ
  blockNo : ℕ
  txIndex : ℕ
  feeDelegation : Bool
  deriving DecidableEq

/-- The decoders of the messages.  A `Receipt` is decoded into the caller's struct, which keeps what was
read before a failure; a query is decoded into a buffer of a given size. -/
structure Codec where
  commit : Bytes → Option CommitResult
  receipt : Bytes → Except Receipt Receipt
  query : ℕ → Bytes → Option Bytes
  queryStateVar : ℕ → Bytes → Option Bytes
  event : Bytes → Option Bytes
  block : Bytes → Option (ℕ × ℕ)
  accountState : Bytes → Option UInt64

/-- What the handlers find around them: the decoders, `malloc`, and what a read of a released request
returns. -/
structure Env where
  codec : Codec
  malloc : ℕ → Bool
  stale : Request → Request

/-! ### The world of an instance -/

/-- A `transaction_receipt` as it stands. -/
inductive TransactionReceipt where
  /-- As the caller handed it over. -/
  | initial
  /-- The status `FAILED` and the text in `ret`, or none where `ret` was copied from a buffer that
  nobody wrote. -/
  | failed (ret : Option Bytes)
  /-- A `Receipt` answering a `GetReceipt` for this hash. -/
  | decoded (txnHash : Hash) (receipt : Receipt)
  /-- What was read of a message that does not decode. -/
  | undecoded (receipt : Receipt)
  deriving DecidableEq

/-- What a user callback is called with. -/
inductive Outcome where
  | receipt (receipt : Receipt)
  | failedReceipt (error : Bytes)
  | query (success : Bool) (text : Bytes)
  | event (event : Bytes)
  | block (blockNo timestamp : ℕ)

/-- An invocation of a user callback by a handler of a request, for the call it belongs to: the request,
or the one whose receipt it fetches. -/
structure Invocation where
  call : ReqId
  callback : ℕ
  arg : ℕ
  outcome : Outcome

/-- What a released request was used as: by libcurl through a transfer, as `main_request`, as the loop
variable of `loc_check_receipts`, as the parent of another request. -/
inductive UseKind where
  | transfer
  | main
  | loopVar
  | parent
  deriving DecidableEq

/-- `struct aergo_account`, as far as the account state goes. -/
structure AccountState where
  isUpdated : Bool
  nonce : UInt64

/-- Where `aergo_process_requests__internal` stands. -/
inductive Pc where
  | waitAgain
  | perform
  | infoRead
  | checkReceipts
  | checkMain
  | exit
  deriving DecidableEq

/-- A running call of `aergo_process_requests__internal`. -/
structure Frame where
  main : Option ReqId
  success : Bool
  pc : Pc

/-- A call of it that waits, in `loc_check_receipts`, for the fetch of a receipt. -/
structure Caller where
  main : Option ReqId
  fetching : ReqId

/-- The world of an instance: its list of requests and the objects, the easy handles in the multi handle
by their request, the counter `transfers`, the calls of `aergo_process_requests__internal`, the memory
of the caller, and what has happened: the asynchronous calls that returned true, the callbacks invoked, the
uses of released requests, and the result of the last synchronous call. -/
structure World where
  requests : List ReqId
  heap : ReqId → Request
  next : ReqId
  attached : List ReqId
  transfers : ℤ
  running : Option Frame
  callers : List Caller
  receipts : ℕ → TransactionReceipt
  accounts : ℕ → AccountState
  blockchainIdHash : Hash
  accepted : List ReqId
  log : List Invocation
  uses : List (UseKind × ReqId)
  returned : Option Bool

def World.start (receipts : ℕ → TransactionReceipt) (accounts : ℕ → AccountState) : World where
  requests := []
  heap := fun _ => Request.blank .transfer
  next := 0
  attached := []
  transfers := 0
  running := none
  callers := []
  receipts := receipts
  accounts := accounts
  blockchainIdHash := Vector.replicate 32 0
  accepted := []
  log := []
  uses := []
  returned := none

namespace World

def modify (w : World) (r : ReqId) (f : Request → Request) : World :=
  { w with heap := Function.update w.heap r (f (w.heap r)) }

/-- An access to a request, noted if it was released. -/
def touch (w : World) (kind : UseKind) (r : ReqId) : World :=
  if r ∈ w.requests then w else { w with uses := (kind, r) :: w.uses }

/-- What a read of a request returns. -/
def read (E : Env) (w : World) (r : ReqId) : Request :=
  if r ∈ w.requests then w.heap r else E.stale (w.heap r)

/-- A write to the caller's receipt. -/
def setReceipt (w : World) (returnPtr : Option ℕ) (receipt : TransactionReceipt) : World :=
  match returnPtr with
  | none => w
  | some p => { w with receipts := Function.update w.receipts p receipt }

/-- `if (request->callback) callback(request->arg, …)` -/
def invoke (w : World) (r : ReqId) (outcome : Outcome) : World :=
  match (w.heap r).callback with
  | none => w
  | some cb =>
    { w with log := ⟨(w.heap r).parent.getD r, cb, (w.heap r).arg, outcome⟩ :: w.log }

end World

/-! ### Response handlers -/

/-- `"error %d: %s"` -/
def errorText (error : ℕ) (detail : Bytes) : Bytes :=
  [0x65, 0x72, 0x72, 0x6f, 0x72, 0x20] ++ (Nat.toDigits 10 error).map (fun c => UInt8.ofNat c.toNat) ++
    [0x3a, 0x20] ++ detail

/-- `No state variable value found` -/
def noStateVariableText : Bytes :=
  [0x4e, 0x6f, 0x20, 0x73, 0x74, 0x61, 0x74, 0x65, 0x20, 0x76, 0x61, 0x72, 0x69, 0x61, 0x62, 0x6c,
   0x65, 0x20, 0x76, 0x61, 0x6c, 0x75, 0x65, 0x20, 0x66, 0x6f, 0x75, 0x6e, 0x64]

section Response

variable (E : Env) (w : World) (r : ReqId) (m : Bytes)

/-- `handle_transfer_response`; without a detail in the message, `error_msg` is not written. -/
def handleTransferResponse : Bool × World :=
  match E.codec.commit m with
  | none => (false, w)
  | some response =>
    if response.error = 0 then (true, w.modify r fun q => { q with needReceipt := true })
    else
      (false, w.setReceipt (w.heap r).returnPtr
        (.failed (response.detail.map (errorText response.error))))

/-- `handle_contract_call_response` is `handle_transfer_response` under another name. -/
def handleContractCallResponse : Bool × World := handleTransferResponse E w r m

/-- The buffer of an asynchronous query is allocated with the size of the message. -/
def queryBufferSize : ℕ :=
  if (w.heap r).callback.isSome then m.length + 5 else (w.heap r).returnSize

/-- The allocation of it succeeds. -/
def queryBuffer : Bool := (w.heap r).callback.isNone || E.malloc (m.length + 5)

def handleQueryResponse : Bool × World :=
  if queryBuffer E w r m then
    match E.codec.query (queryBufferSize w r m) m with
    | none => (false, w)
    | some value => (true, w.invoke r (.query true value))
  else (false, w)

def handleQueryStateVarResponse : Bool × World :=
  if queryBuffer E w r m then
    match E.codec.queryStateVar (queryBufferSize w r m) m with
    | none => (false, w)
    | some value =>
      (true, w.invoke r (.query (value ≠ []) (if value ≠ [] then value else noStateVariableText)))
  else (false, w)

def handleEventResponse : Bool × World :=
  match E.codec.event m with
  | none => (false, w)
  | some event => (true, w.invoke r (.event event))

def handleBlockResponse : Bool × World :=
  match E.codec.block m with
  | none => (false, w)
  | some (blockNo, timestamp) => (true, w.invoke r (.block blockNo timestamp))

/-- The end of `handle_receipt_response`. -/
def settleParent : World :=
  match (w.heap r).parent with
  | none => w
  | some p =>
    (w.touch .parent p).modify p fun q => { q with needReceipt := false, processingReceipt := false }

/-- `handle_receipt_response`; with a callback the receipt is on the stack. -/
def handleReceiptResponse : Bool × World :=
  match E.codec.receipt m with
  | .error receipt =>
    (false, settleParent
      (if (w.heap r).callback.isSome then w
        else w.setReceipt (w.heap r).returnPtr (.undecoded receipt)) r)
  | .ok receipt =>
    (true, settleParent
      (if (w.heap r).callback.isSome then w.invoke r (.receipt receipt)
        else w.setReceipt (w.heap r).returnPtr (.decoded (w.heap r).txnHash receipt)) r)

def handleAccountStateResponse : Bool × World :=
  match (w.heap r).account, E.codec.accountState m with
  | some a, some nonce =>
    (true, { w with accounts := Function.update w.accounts a ⟨true, nonce⟩ })
  | _, _ => (false, w)

/-- `request->process_response(request->instance, request)` on the content of the message. -/
def processResponse : Bool × World :=
  match (w.heap r).processResponse with
  | .transfer => handleTransferResponse E w r m
  | .contractCall => handleContractCallResponse E w r m
  | .query => handleQueryResponse E w r m
  | .queryStateVar => handleQueryStateVarResponse E w r m
  | .event => handleEventResponse E w r m
  | .receipt => handleReceiptResponse E w r m
  | .block => handleBlockResponse E w r m
  | .blockchainStatus =>
    let p := handleBlockchainStatusResponse w.blockchainIdHash m
    (p.2, { w with blockchainIdHash := p.1 })
  | .accountState => handleAccountStateResponse E w r m

end Response

/-! ### Error handlers -/

/-- `tx not found` -/
def txNotFoundText : Bytes := [0x74, 0x78, 0x20, 0x6e, 0x6f, 0x74, 0x20, 0x66, 0x6f, 0x75, 0x6e, 0x64]

/-- `strstr(error_msg, "tx not found")` -/
def txNotFound (error : Bytes) : Bool := txNotFoundText <:+: error

def handleQueryError (w : World) (r : ReqId) : Bool × World :=
  (false, w.invoke r (.query false ((w.heap r).errorMsg.getD [])))

def onFailedReceipt (w : World) (r : ReqId) : Bool × World :=
  let error := (w.heap r).errorMsg.getD []
  match (w.heap r).parent with
  | none => (false, w.invoke r (.failedReceipt error))
  | some p =>
    let w := w.touch .parent p
    if txNotFound error then
      let w := w.modify p fun q => { q with receiptAttempts := q.receiptAttempts + 1 }
      if 10 ≤ (w.heap p).receiptAttempts then
        (false, (w.modify p fun q => { q with needReceipt := false }).invoke r (.failedReceipt error))
      else (false, w.modify p fun q => { q with processingReceipt := false })
    else
      (false, (w.modify p fun q => { q with needReceipt := false }).invoke r (.failedReceipt error))

/-- `request->process_error(request->instance, request)` -/
def processError (w : World) (r : ReqId) : ErrorHandler → Bool × World
  | .query => handleQueryError w r
  | .failedReceipt => onFailedReceipt w r

/-- `process_request_error`, called by libcurl through a transfer. -/
def processRequestError (w : World) (r : ReqId) (error : Bytes) : World :=
  let w := (w.touch .transfer r).modify r fun q =>
    { q with processed := true, errorMsg := q.errorMsg.or (some error) }
  match (w.heap r).processError with
  | none => w
  | some h =>
    let (ok, w) := processError w r h
    w.modify r fun q => { q with success := ok }

/-- The end of `server_response_callback` with a whole message. -/
def processMessage (E : Env) (w : World) (r : ReqId) (m : Bytes) : World :=
  let w := (w.touch .transfer r).modify r fun q => { q with processed := true }
  let (ok, w) := processResponse E w r m
  w.modify r fun q => { q with success := ok }

/-! ### Sample answers -/

/-- A `CommitResultList` with `TX_OK` and a hash. -/
def acceptedAnswer : Bytes := [0x0a, 0x22, 0x0a, 0x20] ++ List.replicate 32 5

/-- A `CommitResultList` with `TX_NONCE_TOO_LOW` and no detail. -/
def nonceTooLowAnswer : Bytes := [0x0a, 0x02, 0x10, 0x01]

/-- The same with the detail `low`. -/
def rejectedAnswer : Bytes := [0x0a, 0x07, 0x10, 0x01, 0x1a, 0x03, 0x6c, 0x6f, 0x77]

/-- A `SingleBytes` with the value `7`. -/
def queryAnswer : Bytes := [0x0a, 0x01, 0x37]

/-- A `Receipt` with a contract address and the status `SUCCESS`. -/
def receiptAnswer : Bytes :=
  [0x0a, 33, 12, 52, 124, 31, 211, 128, 170, 172, 90, 63, 186, 125, 65, 16, 90, 225, 228, 68, 27, 246,
   34, 244, 162, 192, 72, 236, 250, 144, 156, 50, 38, 164, 3, 0x12, 7, 0x53, 0x55, 0x43, 0x43, 0x45,
   0x53, 0x53]

def emptyReceipt : Receipt where
  contractAddress := []
  status := []
  ret := []
  txHash := []
  blockHash := []
  feeUsed := []
  gasUsed := 0
  blockNo := 0
  txIndex := 0
  feeDelegation := false

def sampleReceipt : Receipt :=
  { emptyReceipt with
    contractAddress := sampleAddress
    status := [0x53, 0x55, 0x43, 0x43, 0x45, 0x53, 0x53] }

def sampleCodec : Codec where
  commit m :=
    if m = acceptedAnswer then some ⟨0, none⟩
    else if m = nonceTooLowAnswer then some ⟨1, none⟩
    else if m = rejectedAnswer then some ⟨1, some [0x6c, 0x6f, 0x77]⟩
    else none
  receipt m := if m = receiptAnswer then .ok sampleReceipt else .error emptyReceipt
  query size m := if m = queryAnswer ∧ 1 ≤ size then some [0x37] else none
  queryStateVar _ _ := none
  event _ := none
  block _ := none
  accountState _ := none

/-- The sample decoders, enough memory, and released requests that stay as they were. -/
def sampleEnv : Env where
  codec := sampleCodec
  malloc _ := true
  stale q := q

end Libaergo
