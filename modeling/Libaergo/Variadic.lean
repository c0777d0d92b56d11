import Libaergo.Payloads
import Libaergo.StateKeys
import Libaergo.Socket.Amounts

/-!
# Variadic calls (`aergo.c`)

A contract is called and queried, synchronously or not, by four functions that take the arguments as a JSON
text, and by four that take them one by one, write the text to a buffer of their own and hand it on.  Three of
these make the request that their counterpart makes of the text.  `aergo_query_smart_contract_async` hands on the
address of its buffer in the place of the caller's argument, too (`sameOutcomes_iff`).
-/

namespace Libaergo.Arguments

open Lib Nanopb

/-! ### The requests -/

/-- A request as it is handed to `send_grpc_request`: the encoded bytes, and what else is in it. -/
structure Created where
  data : Bytes
  request : Request

/-- What a call comes to: the request it made, the value it returned, and the world. -/
structure Outcome where
  created : Option Created
  value : Bool
  world : World

/-- The call returns false without a request. -/
def refused (w : World) : Outcome := ⟨none, false, w⟩

/-- The end of the functions, from `new_request` on: a request with a callback is sent, one without is sent and
waited for. -/
def sendGrpcRequest (E : Env) (w : World) (data : Bytes) (c : Call) (acts : List Act) : Option Outcome := do
  let w ← if c.callback.isSome then some (w.call c) else w.syncCall E c acts
  return ⟨if c.start = .noRequest then none else some ⟨data, c.request⟩, w.returned.getD false, w⟩

/-- The request of `aergo_call_smart_contract__internal`. -/
def contractCallCall (cb : Option ℕ) (arg : ℕ) (receipt : Option ℕ) (txnHash : Hash) (start : Start) : Call where
  service := .contractCall
  callback := cb
  stream := nofun
  wait := nofun
  arg := arg
  returnPtr := receipt
  returnSize := 0
  txnHash := txnHash
  account := none
  start := start

/-- The request of `aergo_query_smart_contract__internal`. -/
def queryCall (cb : Option ℕ) (arg : ℕ) (result : Option ℕ) (resultlen : ℕ) (start : Start) : Call where
  service := .query
  callback := cb
  stream := nofun
  wait := nofun
  arg := arg
  returnPtr := result
  returnSize := resultlen
  txnHash := Vector.replicate 32 0
  account := none
  start := start

/-! ### The functions with a text -/

section Json

variable (S : Setup) (w : World)

def aergoCallSmartContractInternal (cb : Option ℕ) (arg : ℕ) (receipt : Option ℕ) (a : ℕ) (account : Account)
    (contractAddress function : Bytes) (args : Option Bytes) (waits : Waits) : Option Outcome := do
  match ← (EntryPoint.callSmartContract contractAddress function args).prepare S w a account waits with
  | .stopped w => return refused w
  | .failed error w =>
    match receipt with
    | some receipt => return refused (w.failReceipt receipt error)
    | none => return refused w
  | .built encoded w =>
    sendGrpcRequest S.env w encoded.message (contractCallCall cb arg receipt encoded.txnHash waits.commit.start)
      waits.commit.acts

def aergoCallSmartContractJson (receipt : Option ℕ) (a : ℕ) (account : Account) (contractAddress function : Bytes)
    (args : Option Bytes) (waits : Waits) : Option Outcome :=
  match receipt with
  | none => some (refused w)
  | some receipt =>
    aergoCallSmartContractInternal S (w.handOver receipt) none 0 (some receipt) a account contractAddress function
      args waits

def aergoCallSmartContractJsonAsync (cb : Option ℕ) (arg a : ℕ) (account : Account)
    (contractAddress function : Bytes) (args : Option Bytes) (waits : Waits) : Option Outcome :=
  if cb = none then some (refused w)
  else aergoCallSmartContractInternal S w cb arg none a account contractAddress function args waits

/-- `Query_fields` with the callbacks that `EncodeQuery` sets. -/
def queryFields (sha256 : Bytes → Hash) (stack : ℕ → UInt8) (contractAddress queryInfo : Bytes) :
    List (PbField × FieldData) :=
  [(⟨1, .bytes⟩, .callback (some (StateKey.encodeAccountAddress sha256 stack contractAddress))),
   (⟨2, .bytes⟩, .callback (some (encodeString (some queryInfo))))]

/-- `EncodeQuery`, for a buffer that has room for the frame. -/
def encodeQuery (sha256 : Bytes → Hash) (stack : ℕ → UInt8) (psize : ℕ) (contractAddress queryInfo : Bytes) :
    Except String Bytes :=
  (pbEncode (queryFields sha256 stack contractAddress queryInfo) (pbOstreamFromBuffer (psize - 5))).map fun stream =>
    encodeHttp2DataFrame stream.written

/-- `aergo_query_smart_contract__internal`; the null byte that it writes to the result is left out. -/
def aergoQuerySmartContractInternal (cb : Option ℕ) (arg : ℕ) (result : Option ℕ) (resultlen : ℕ)
    (contractAddress function : Bytes) (args : Option Bytes) (wait : Wait) : Option Outcome :=
  let size := function.length + (args.getD []).length
  if S.env.malloc (size + 32) = false ∨ S.env.malloc (size + 300) = false then some (refused w)
  else
    match encodeQuery S.sha256 S.stack (size + 300) contractAddress (queryInfo function (args.getD [])) with
    | .error _ => some (refused w)
    | .ok data =>
      sendGrpcRequest S.env w data (queryCall cb arg result resultlen wait.start) wait.acts

def aergoQuerySmartContractJson (result : Option ℕ) (resultlen : ℤ) (contractAddress function : Bytes)
    (args : Option Bytes) (wait : Wait) : Option Outcome :=
  if result = none ∨ resultlen ≤ 0 then some (refused w)
  else aergoQuerySmartContractInternal S w none 0 result resultlen.toNat contractAddress function args wait

def aergoQuerySmartContractJsonAsync (cb : Option ℕ) (arg : ℕ) (contractAddress function : Bytes)
    (args : Option Bytes) (wait : Wait) : Option Outcome :=
  if cb = none then some (refused w)
  else aergoQuerySmartContractInternal S w cb arg none 0 contractAddress function args wait

/-! ### The variadic functions -/

/-- `arguments_to_json` into `args[512]`, and the call with the text.  Nothing is known of the call when it has
written behind the end. -/
def withArguments (args : List Argument) (call : Bytes → Option Outcome) : Option Outcome :=
  match argumentsToJson 512 args with
  | (ret, r) =>
    if 512 < r.reach then none
    else if ret = false then some (refused w)
    else call (readCString r.text)

def aergoCallSmartContract (receipt : Option ℕ) (a : ℕ) (account : Account) (contractAddress function : Bytes)
    (args : List Argument) (waits : Waits) : Option Outcome :=
  withArguments w args fun text =>
    aergoCallSmartContractJson S w receipt a account contractAddress function (some text) waits

def aergoCallSmartContractAsync (cb : Option ℕ) (arg a : ℕ) (account : Account) (contractAddress function : Bytes)
    (args : List Argument) (waits : Waits) : Option Outcome :=
  withArguments w args fun text =>
    aergoCallSmartContractJsonAsync S w cb arg a account contractAddress function (some text) waits

/-- `aergo_query_smart_contract`; without types there are no arguments. -/
def aergoQuerySmartContract (result : Option ℕ) (resultlen : ℤ) (contractAddress function : Bytes)
    (args : List Argument) (wait : Wait) : Option Outcome :=
  if args = [] then aergoQuerySmartContractJson S w result resultlen contractAddress function none wait
  else
    withArguments w args fun text =>
      aergoQuerySmartContractJson S w result resultlen contractAddress function (some text) wait

/-- `aergo_query_smart_contract_async`, with its buffer at `buffer`: the argument of the caller is not used. -/
def aergoQuerySmartContractAsync (buffer : ℕ) (cb : Option ℕ) (_arg : ℕ) (contractAddress function : Bytes)
    (args : List Argument) (wait : Wait) : Option Outcome :=
  if args = [] then aergoQuerySmartContractJsonAsync S w cb buffer contractAddress function none wait
  else
    withArguments w args fun text =>
      aergoQuerySmartContractJsonAsync S w cb buffer contractAddress function (some text) wait

end Json

/-! ### The encoded query -/

section Encode

variable {sha256 : Bytes → Hash} {stack : ℕ → UInt8} {contractAddress : Bytes} {psize : ℕ}

lemma varintLoop_length_le (k n : ℕ) : (varintLoop k n).length ≤ k := by
  induction k generalizing n with
  | zero => exact le_rfl
  | succ k ih =>
    rw [varintLoop]
    split
    · exact Nat.zero_le _
    · exact Nat.succ_le_succ (ih _)

lemma unsetTopBit_length : ∀ bs : Bytes, (unsetTopBit bs).length = bs.length
  | [] => rfl
  | [_] => rfl
  | _ :: c :: bs => congrArg (· + 1) (unsetTopBit_length (c :: bs))

lemma emits_varint_short (n : ℕ) : ∃ bs : Bytes, bs.length ≤ 10 ∧ Emits (pbEncodeVarint n) bs := by
  unfold pbEncodeVarint
  split
  · exact ⟨[UInt8.ofNat n], by simp, emits_pbWrite [UInt8.ofNat n]⟩
  · refine ⟨unsetTopBit (varintLoop 10 n), ?_, emits_pbWrite _⟩
    rw [unsetTopBit_length]
    exact varintLoop_length_le 10 n

def IsAddress (sha256 : Bytes → Hash) (stack : ℕ → UInt8) (contractAddress : Bytes) : Prop :=
  contractAddress.length = 52 ∧ decodeAddress sha256 stack contractAddress ≠ none

/-- A query is encoded if its address is one: the buffer has room for it. -/
lemma encodeQuery_ok (h : IsAddress sha256 stack contractAddress) (psize : ℕ) (queryInfo : Bytes)
    (hroom : queryInfo.length + 51 ≤ psize) :
    ∃ data, encodeQuery sha256 stack psize contractAddress queryInfo = .ok data := by
  obtain ⟨hsize, hsome⟩ := h
  obtain ⟨address, haddress⟩ := Option.ne_none_iff_exists'.mp hsome
  obtain ⟨len, hlen, hvarint⟩ := emits_varint_short queryInfo.length
  have htag := emits_pbEncodeTagForField ⟨2, .bytes⟩ (by decide)
  have hinfo : Emits (encodeField ⟨2, .bytes⟩ (.callback (some (encodeString (some queryInfo))))) _ :=
    Emits.callback (htag.bind (hvarint.bind (emits_pbWrite queryInfo)))
  have hfields := (StateKey.emits_contractAddress hsize haddress).cons (hinfo.cons pbEncode_nil)
  have hfirst : (Wire.encode (lenField 1 address.toList)).length = 35 := by
    have hten : (varint (1 * 8 + 2)).length = 1 := by decide
    have hlength : (varint 33).length = 1 := by decide
    simp only [lenField, Wire.encode, List.flatMap_cons, List.flatMap_nil, List.append_nil, Wire.Field.text,
      Wire.Value.wt, Wire.Value.payload, List.length_append, Vector.length_toList, hten, hlength]
  have hsecond : (varint (2 * 8 + wireType .bytes)).length = 1 := by decide
  have hfrom := hfields.fromBuffer (psize - 5)
  rw [if_pos (by simp only [List.length_append, List.length_nil, hfirst, hsecond]; omega)] at hfrom
  exact ⟨_, congrArg (Except.map fun stream : OStream => encodeHttp2DataFrame stream.written) hfrom⟩

lemma encodeQuery_error (h : ¬ IsAddress sha256 stack contractAddress) (queryInfo : Bytes) :
    encodeQuery sha256 stack psize contractAddress queryInfo = .error "callback error" := by
  have hrefused : contractAddress.length ≠ 52 ∨ decodeAddress sha256 stack contractAddress = none := by
    unfold IsAddress at h
    rwa [not_and_or, not_not] at h
  unfold encodeQuery
  rw [queryFields, pbEncode, encodeField, StateKey.encodeAccountAddress_refused hrefused]
  rfl

end Encode

/-! ### The same outcomes -/

/-- The parameters of the functions, the arguments of the contract excepted. -/
structure Params where
  cb : Option ℕ
  arg : ℕ
  receipt : Option ℕ
  result : Option ℕ
  resultlen : ℤ
  a : ℕ
  account : Account
  contractAddress : Bytes
  function : Bytes
  waits : Waits
  wait : Wait

section Outcomes

variable (S : Setup) (w : World) (buffer : ℕ) (p : Params)

/-- **Each of the four does what its counterpart does with the text**: it creates the same request, leaves the
same world and returns the same value. -/
structure SameOutcomes (args : List Argument) (text : Bytes) : Prop where
  call : aergoCallSmartContract S w p.receipt p.a p.account p.contractAddress p.function args p.waits =
    aergoCallSmartContractJson S w p.receipt p.a p.account p.contractAddress p.function (some text) p.waits
  callAsync : aergoCallSmartContractAsync S w p.cb p.arg p.a p.account p.contractAddress p.function args p.waits =
    aergoCallSmartContractJsonAsync S w p.cb p.arg p.a p.account p.contractAddress p.function (some text) p.waits
  query : aergoQuerySmartContract S w p.result p.resultlen p.contractAddress p.function args p.wait =
    aergoQuerySmartContractJson S w p.result p.resultlen p.contractAddress p.function (some text) p.wait
  queryAsync : aergoQuerySmartContractAsync S w buffer p.cb p.arg p.contractAddress p.function args p.wait =
    aergoQuerySmartContractJsonAsync S w p.cb p.arg p.contractAddress p.function (some text) p.wait

/-- An asynchronous query for this text gets a request: there is a callback, the buffers and the request are
allocated, and the address of the contract is one. -/
structure QueryMade (text : Bytes) : Prop where
  callback : p.cb ≠ none
  queryInfo : S.env.malloc (p.function.length + text.length + 32) = true
  buffer : S.env.malloc (p.function.length + text.length + 300) = true
  address : IsAddress S.sha256 S.stack p.contractAddress
  request : p.wait.start ≠ .noRequest

variable {S w buffer p} {args : List Argument} {text : Bytes}

lemma withArguments_eq (h : argsBuffer args = some text) (call : Bytes → Option Outcome) :
    withArguments w args call = call text := by
  unfold argsBuffer at h
  unfold withArguments
  generalize argumentsToJson 512 args = out at h ⊢
  obtain ⟨ret, r⟩ := out
  cases ret with
  | false => cases h
  | true =>
    dsimp only at h ⊢
    split at h
    · next hreach =>
      obtain rfl := Option.some.inj h
      rw [if_neg (not_lt.mpr hreach)]
      rfl
    · cases h

lemma queryInfo_length_le (function text : Bytes) :
    (queryInfo function text).length ≤ function.length + text.length + 31 := by
  unfold queryInfo objectText
  dsimp only
  split <;> exact List.length_take_le _ _

lemma sendGrpcRequest_async {c : Call} (hc : c.callback.isSome = true) (hs : c.start ≠ .noRequest) (E : Env)
    (data : Bytes) (acts : List Act) :
    sendGrpcRequest E w data c acts = some ⟨some ⟨data, c.request⟩, (w.call c).returned.getD false, w.call c⟩ := by
  unfold sendGrpcRequest
  rw [if_pos hc, if_neg hs]
  rfl

lemma sendGrpcRequest_sync {c : Call} (hc : c.callback = none) (hs : c.start ≠ .noRequest) (E : Env) (data : Bytes)
    (acts : List Act) :
    sendGrpcRequest E w data c acts =
      (w.syncCall E c acts).map fun w => ⟨some ⟨data, c.request⟩, w.returned.getD false, w⟩ := by
  unfold sendGrpcRequest
  rw [if_neg (by simp [hc]), if_neg hs]
  exact Option.map_eq_bind.symm

lemma queryInternal_refused (h : ¬ (S.env.malloc (p.function.length + text.length + 32) = true ∧
      S.env.malloc (p.function.length + text.length + 300) = true ∧ IsAddress S.sha256 S.stack p.contractAddress))
    (cb : Option ℕ) (arg : ℕ) (result : Option ℕ) (resultlen : ℕ) :
    aergoQuerySmartContractInternal S w cb arg result resultlen p.contractAddress p.function (some text) p.wait =
      some (refused w) := by
  unfold aergoQuerySmartContractInternal
  dsimp only [Option.getD_some]
  split
  · rfl
  · next hmalloc =>
    simp only [not_or, Bool.not_eq_false] at hmalloc
    rw [encodeQuery_error fun haddress => h ⟨hmalloc.1, hmalloc.2, haddress⟩]

lemma queryInternal_sent (hinfo : S.env.malloc (p.function.length + text.length + 32) = true)
    (hbuffer : S.env.malloc (p.function.length + text.length + 300) = true)
    (haddress : IsAddress S.sha256 S.stack p.contractAddress) :
    ∃ data, ∀ (cb : Option ℕ) (arg : ℕ) (result : Option ℕ) (resultlen : ℕ),
      aergoQuerySmartContractInternal S w cb arg result resultlen p.contractAddress p.function (some text) p.wait =
        sendGrpcRequest S.env w data (queryCall cb arg result resultlen p.wait.start) p.wait.acts := by
  have hlen := queryInfo_length_le p.function text
  obtain ⟨data, hdata⟩ := encodeQuery_ok haddress (p.function.length + text.length + 300)
    (queryInfo p.function text) (by omega)
  refine ⟨data, fun cb arg result resultlen => ?_⟩
  unfold aergoQuerySmartContractInternal
  dsimp only [Option.getD_some]
  rw [hinfo, hbuffer, if_neg (by simp), hdata]

/-- **An asynchronous query depends on the argument of the caller exactly if it gets a request.** -/
lemma queryAsync_eq_iff (S : Setup) (w : World) (p : Params) (text : Bytes) (arg arg' : ℕ) :
    aergoQuerySmartContractJsonAsync S w p.cb arg p.contractAddress p.function (some text) p.wait =
        aergoQuerySmartContractJsonAsync S w p.cb arg' p.contractAddress p.function (some text) p.wait ↔
      arg = arg' ∨ ¬ QueryMade S p text := by
  by_cases harg : arg = arg'
  · rw [harg]
    exact iff_of_true rfl (.inl rfl)
  rw [or_iff_right harg]
  unfold aergoQuerySmartContractJsonAsync
  by_cases hcb : p.cb = none
  · rw [if_pos hcb, if_pos hcb]
    exact iff_of_true rfl fun h => h.callback hcb
  rw [if_neg hcb, if_neg hcb]
  obtain ⟨cb, hsome⟩ := Option.ne_none_iff_exists'.mp hcb
  by_cases hencoded : S.env.malloc (p.function.length + text.length + 32) = true ∧
      S.env.malloc (p.function.length + text.length + 300) = true ∧ IsAddress S.sha256 S.stack p.contractAddress
  · obtain ⟨hinfo, hbuffer, haddress⟩ := hencoded
    obtain ⟨data, hsent⟩ := queryInternal_sent (w := w) hinfo hbuffer haddress
    rw [hsent, hsent, hsome]
    by_cases hstart : p.wait.start = .noRequest
    · refine iff_of_true ?_ fun h => h.request hstart
      rw [hstart]
      rfl
    · refine iff_of_false (fun heq => ?_) fun h => h ⟨hcb, hinfo, hbuffer, haddress, hstart⟩
      rw [sendGrpcRequest_async rfl hstart, sendGrpcRequest_async rfl hstart] at heq
      have hcreated := Option.some.inj (congrArg Outcome.created (Option.some.inj heq))
      exact harg (congrArg (fun c : Created => c.request.arg) hcreated)
  · rw [queryInternal_refused hencoded, queryInternal_refused hencoded]
    exact iff_of_true rfl fun h => hencoded ⟨h.queryInfo, h.buffer, h.address⟩

/-- **The variadic functions are equivalent to those with the text, if and only if the caller's argument is the
address of the buffer or the asynchronous query gets no request.** -/
theorem sameOutcomes_iff (S : Setup) (w : World) (buffer : ℕ) (p : Params) {args : List Argument} {text : Bytes}
    (hne : args ≠ []) (h : argsBuffer args = some text) :
    SameOutcomes S w buffer p args text ↔ p.arg = buffer ∨ ¬ QueryMade S p text := by
  have hasync : aergoQuerySmartContractAsync S w buffer p.cb p.arg p.contractAddress p.function args p.wait =
      aergoQuerySmartContractJsonAsync S w p.cb buffer p.contractAddress p.function (some text) p.wait := by
    unfold aergoQuerySmartContractAsync
    rw [if_neg hne, withArguments_eq h]
  have hiff := queryAsync_eq_iff S w p text buffer p.arg
  rw [← hasync, eq_comm (a := buffer)] at hiff
  rw [← hiff]
  constructor
  · intro hsame
    exact hsame.queryAsync
  · intro hquery
    refine ⟨withArguments_eq h _, withArguments_eq h _, ?_, hquery⟩
    unfold aergoQuerySmartContract
    rw [if_neg hne, withArguments_eq h]

end Outcomes

/-- A query of the function `f` with a callback at 1 that wants to see a 7. -/
def sampleQuery : Params where
  cb := some 1
  arg := 7
  receipt := none
  result := none
  resultlen := 0
  a := 0
  account := sampleAccount false
  contractAddress := sampleAddress
  function := [0x66]
  waits := noWaits
  wait := ⟨.sent true, []⟩

/-- A query of what is no contract. -/
theorem sameOutcomes_noContract :
    SameOutcomes keySetup newInstance 4096 { sampleQuery with contractAddress := [] } [.int 5] [0x5b, 0x35, 0x5d] :=
  (sameOutcomes_iff keySetup newInstance 4096 { sampleQuery with contractAddress := [] } (List.cons_ne_nil _ _)
    (by decide +kernel)).mpr (.inr fun h => absurd h.address.1 (by decide))

/-- The argument that the callback will be called with. -/
def Outcome.arg (out : Outcome) : Option ℕ := out.created.map fun c => c.request.arg

/-- **The callback is called with the address of the buffer**, here 4096. -/
theorem buffer_handed_on :
    argsBuffer [.int 5] = some [0x5b, 0x35, 0x5d] ∧
      (aergoQuerySmartContractAsync keySetup newInstance 4096 (some 1) 7 sampleAddress [0x66] [.int 5]
        ⟨.sent true, []⟩).map Outcome.arg = some (some 4096) ∧
      (aergoQuerySmartContractJsonAsync keySetup newInstance (some 1) 7 sampleAddress [0x66] (some [0x5b, 0x35, 0x5d])
        ⟨.sent true, []⟩).map Outcome.arg = some (some 7) ∧
      ¬ SameOutcomes keySetup newInstance 4096 sampleQuery [.int 5] [0x5b, 0x35, 0x5d] := by
  have hbuffer : (aergoQuerySmartContractAsync keySetup newInstance 4096 (some 1) 7 sampleAddress [0x66] [.int 5]
      ⟨.sent true, []⟩).map Outcome.arg = some (some 4096) := by decide +kernel
  have harg : (aergoQuerySmartContractJsonAsync keySetup newInstance (some 1) 7 sampleAddress [0x66]
      (some [0x5b, 0x35, 0x5d]) ⟨.sent true, []⟩).map Outcome.arg = some (some 7) := by decide +kernel
  refine ⟨by decide +kernel, hbuffer, harg, fun h => ?_⟩
  have hsame := congrArg (Option.map Outcome.arg) h.queryAsync
  have hseven := (hbuffer.symm.trans hsame).trans harg
  exact absurd hseven (by decide)

/-! ### The functions that wait -/

/-- What a synchronous call left, with the transaction hash of its request. -/
def Outcome.returned (out : Outcome) : Returned :=
  ⟨out.value, out.created.map fun c => c.request.txnHash, out.world⟩

/-- **`aergo_call_smart_contract_json` is the synchronous transaction.** -/
theorem aergoCallSmartContractJson_eq (S : Setup) (w : World) (receipt a : ℕ) (account : Account)
    (contractAddress function : Bytes) (args : Option Bytes) (waits : Waits) (hs : waits.commit.start ≠ .noRequest) :
    (aergoCallSmartContractJson S w (some receipt) a account contractAddress function args waits).map
        Outcome.returned =
      Libaergo.aergoCallSmartContractJson S w receipt a account contractAddress function args waits := by
  unfold aergoCallSmartContractJson aergoCallSmartContractInternal Libaergo.aergoCallSmartContractJson EntryPoint.run
  dsimp only
  cases (EntryPoint.callSmartContract contractAddress function args).prepare S (w.handOver receipt) a account waits with
  | none => rfl
  | some prepared =>
    cases prepared with
    | stopped w => rfl
    | failed error w => rfl
    | built encoded w =>
      have hcb : (contractCallCall none 0 (some receipt) encoded.txnHash waits.commit.start).callback = none := rfl
      have hsent := sendGrpcRequest_sync (w := w) hcb hs S.env encoded.message waits.commit.acts
      refine (congrArg (Option.map Outcome.returned) hsent).trans ?_
      rw [Option.map_map]
      exact Option.map_eq_bind

end Libaergo.Arguments
