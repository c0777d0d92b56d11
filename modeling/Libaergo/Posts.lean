import Libaergo.OutputBuffers
import Libaergo.Variadic

/-!
# What the node is asked (`aergo.c`, `socket.c`)

The calls that send no transaction write their arguments into a message of one of five kinds, frame it in a buffer of
a fixed size, and post it to the address of the node under the name of a service.  A node that takes the service from
the address and reads the frame and the message as the format has them finds what the caller has asked, all of it, and
nothing is posted where that is not so (`ApiCall.asks_posted`).  The buffers of the messages are large enough, except
for the name of an event with more than 211 bytes, which is refused; that of the key of a state variable is not, and
cuts it, so that the variables are those whose key fits (`Variable.Fits`).
-/

namespace Libaergo.Post

open Lib Nanopb Arguments

/-! ### The address -/

/-- `struct aergo` as `aergo_connect` leaves it: the host stands in an array of 32 bytes. -/
structure Connection where
  host : Bytes
  port : ℤ
  host_lt : host.length < 32

/-- `aergo_connect`; a longer host is written behind the array. -/
def aergoConnect (host : Bytes) (port : ℤ) : Option Connection :=
  if h : host.length < 32 then some ⟨host, port, h⟩ else none

/-- `http://` -/
def schemeText : Bytes := [0x68, 0x74, 0x74, 0x70, 0x3a, 0x2f, 0x2f]

/-- `/types.AergoRPCService/` -/
def serviceText : Bytes :=
  [0x2f, 0x74, 0x79, 0x70, 0x65, 0x73, 0x2e, 0x41, 0x65, 0x72, 0x67, 0x6f, 0x52, 0x50, 0x43, 0x53, 0x65, 0x72, 0x76,
    0x69, 0x63, 0x65, 0x2f]

def serviceName : Service → Bytes
  | .transfer => [0x43, 0x6f, 0x6d, 0x6d, 0x69, 0x74, 0x54, 0x58]
  | .contractCall => [0x43, 0x6f, 0x6d, 0x6d, 0x69, 0x74, 0x54, 0x58]
  | .query => [0x51, 0x75, 0x65, 0x72, 0x79, 0x43, 0x6f, 0x6e, 0x74, 0x72, 0x61, 0x63, 0x74]
  | .queryStateVar =>
    [0x51, 0x75, 0x65, 0x72, 0x79, 0x43, 0x6f, 0x6e, 0x74, 0x72, 0x61, 0x63, 0x74, 0x53, 0x74, 0x61, 0x74, 0x65]
  | .events => [0x4c, 0x69, 0x73, 0x74, 0x45, 0x76, 0x65, 0x6e, 0x74, 0x53, 0x74, 0x72, 0x65, 0x61, 0x6d]
  | .receipt => [0x47, 0x65, 0x74, 0x52, 0x65, 0x63, 0x65, 0x69, 0x70, 0x74]
  | .blocks => [0x4c, 0x69, 0x73, 0x74, 0x42, 0x6c, 0x6f, 0x63, 0x6b, 0x53, 0x74, 0x72, 0x65, 0x61, 0x6d]
  | .blockchainStatus => [0x42, 0x6c, 0x6f, 0x63, 0x6b, 0x63, 0x68, 0x61, 0x69, 0x6e]
  | .accountState => [0x47, 0x65, 0x74, 0x53, 0x74, 0x61, 0x74, 0x65]

/-- The `url[256]` of `send_grpc_request`. -/
def requestUrl (connection : Connection) (service : Service) : Bytes :=
  (schemeText ++ connection.host ++ 0x3a :: (intText connection.port ++ (serviceText ++ serviceName service))).take 255

/-! ### The messages -/

section Encode

variable (sha256 : Bytes → Hash) (stack : ℕ → UInt8)

/-- The common body of the encoders. -/
def encodeMessage (fields : List (PbField × FieldData)) (psize : ℕ) : Except String Bytes :=
  (pbEncode fields (pbOstreamFromBuffer (roomOf psize))).map fun stream => encodeHttp2DataFrame stream.written

/-- `FilterInfo_fields` with the values and callbacks that `EncodeFilterInfo` sets. -/
def filterInfoFields (contractAddress : Bytes) (eventName : Option Bytes) : List (PbField × FieldData) :=
  [(⟨1, .bytes⟩, .callback (some (StateKey.encodeAccountAddress sha256 stack contractAddress))),
   (⟨2, .string⟩, .callback (eventName.map fun name => encodeString (some name))),
   (⟨3, .uvarint⟩, .uvarint 0),
   (⟨4, .uvarint⟩, .uvarint 0),
   (⟨5, .bool⟩, .bool true),
   (⟨6, .bytes⟩, .callback none),
   (⟨7, .uvarint⟩, .uvarint 0)]

def encodeFilterInfo (psize : ℕ) (contractAddress : Bytes) (eventName : Option Bytes) : Except String Bytes :=
  encodeMessage (filterInfoFields sha256 stack contractAddress eventName) psize

def singleBytesFields (value : Bytes) : List (PbField × FieldData) :=
  [(⟨1, .bytes⟩, .callback (some (encodeBlob value)))]

def encodeAccountAddress (psize : ℕ) (pubkey : Address) : Except String Bytes :=
  encodeMessage (singleBytesFields pubkey.toList) psize

def encodeTxnHash (psize : ℕ) (txnHash : Hash) : Except String Bytes :=
  encodeMessage (singleBytesFields txnHash.toList) psize

def encodeEmptyMessage (psize : ℕ) : Except String Bytes := encodeMessage [] psize

/-- What is asked, with the arguments that are encoded. -/
inductive Inquiry where
  | query (contractAddress function : Bytes) (args : Option Bytes)
  | stateVariable (contractAddress varName : Bytes)
  | events (contractAddress eventName : Bytes)
  | receipt (txnHash : Hash)
  | blocks
  | blockchainStatus
  | accountState (pubkey : Address)

def Inquiry.service : Inquiry → Service
  | .query _ _ _ => .query
  | .stateVariable _ _ => .queryStateVar
  | .events _ _ => .events
  | .receipt _ => .receipt
  | .blocks => .blocks
  | .blockchainStatus => .blockchainStatus
  | .accountState _ => .accountState

def Inquiry.psize : Inquiry → ℕ
  | .query _ function args => function.length + (args.getD []).length + 300
  | .stateVariable _ _ => 1024
  | .events _ _ => 256
  | .receipt _ => 256
  | .blocks => 32
  | .blockchainStatus => 128
  | .accountState _ => 128

def Inquiry.encode (q : Inquiry) : Except String Bytes :=
  match q with
  | .query contractAddress function args =>
    encodeQuery sha256 stack q.psize contractAddress (queryInfo function (args.getD []))
  | .stateVariable contractAddress varName =>
    (StateKey.encodeStateQuery sha256 stack q.psize contractAddress varName).result
  | .events contractAddress eventName => encodeFilterInfo sha256 stack q.psize contractAddress (some eventName)
  | .receipt txnHash => encodeTxnHash q.psize txnHash
  | .blocks => encodeEmptyMessage q.psize
  | .blockchainStatus => encodeEmptyMessage q.psize
  | .accountState pubkey => encodeAccountAddress q.psize pubkey

end Encode

/-! ### The node -/

structure FilterInfo where
  contractAddress : Bytes
  eventName : Bytes
  blockfrom : ℕ
  blockto : ℕ
  desc : Bool
  argFilter : Bytes
  recentBlockCnt : ℕ
  deriving DecidableEq

inductive Ask where
  | queryContract (contractAddress queryinfo : Bytes)
  | queryContractState (contractAddress root : Bytes) (compressed : Bool) (storageKeys : List Bytes)
  | listEventStream (filter : FilterInfo)
  | getReceipt (value : Bytes)
  | listBlockStream
  | blockchain
  | getState (value : Bytes)
  deriving DecidableEq

/-- The service that an address names: what stands behind the host. -/
def serviceOf (url : Bytes) : Option Bytes :=
  let target := (url.drop schemeText.length).dropWhile (· ≠ 0x2f)
  if serviceText <+: target then some (target.drop serviceText.length) else none

/-- The message in a frame that is not compressed and has the length in its header. -/
def readFrame (data : Bytes) : Option Bytes :=
  if data.take 1 = [0] ∧ beNat ((data.drop 1).take 4) = (data.drop 5).length ∧ 5 ≤ data.length then some (data.drop 5)
  else none

/-- What the fields of a message ask of a service. -/
def readAsk (service : Bytes) (fs : List Wire.Field) : Option Ask :=
  if service = serviceName .query then some (.queryContract (Wire.bytesOf 1 fs) (Wire.bytesOf 2 fs))
  else if service = serviceName .queryStateVar then
    some (.queryContractState (Wire.bytesOf 1 fs) (Wire.bytesOf 3 fs) (Wire.numOf 4 fs ≠ 0) (Wire.allBytes 5 fs))
  else if service = serviceName .events then
    some (.listEventStream ⟨Wire.bytesOf 1 fs, Wire.bytesOf 2 fs, Wire.numOf 3 fs, Wire.numOf 4 fs,
      Wire.numOf 5 fs ≠ 0, Wire.bytesOf 6 fs, Wire.numOf 7 fs⟩)
  else if service = serviceName .receipt then some (.getReceipt (Wire.bytesOf 1 fs))
  else if service = serviceName .blocks then some .listBlockStream
  else if service = serviceName .blockchainStatus then some .blockchain
  else if service = serviceName .accountState then some (.getState (Wire.bytesOf 1 fs))
  else none

/-- **What a node reads of a post.** -/
def readPost (url data : Bytes) : Option Ask := do
  let service ← serviceOf url
  let content ← readFrame data
  let fs ← Wire.decode content
  readAsk service fs

/-- The query of a function, with its arguments if there are any. -/
def queryText (function args : Bytes) : Bytes :=
  if args = [] then nameText ++ (function ++ [0x22, 0x7d])
  else nameText ++ (function ++ (argsText ++ (args ++ [0x7d])))

/-- The address in a text of 52 characters. -/
def contractOf (sha256 : Bytes → Hash) (stack : ℕ → UInt8) (contractAddress : Bytes) : Option Address :=
  if contractAddress.length = 52 then decodeAddress sha256 stack contractAddress else none

/-- **What the caller asks**, if it can be asked. -/
def Inquiry.ask (sha256 : Bytes → Hash) (stack : ℕ → UInt8) : Inquiry → Option Ask
  | .query contractAddress function args =>
    (contractOf sha256 stack contractAddress).map fun address =>
      .queryContract address.toList (queryText function (args.getD []))
  | .stateVariable contractAddress varName =>
    (contractOf sha256 stack contractAddress).map fun address =>
      .queryContractState address.toList [] true [(sha256 (StateKey.Variable.ofVarName varName).storageKey).toList]
  | .events contractAddress eventName =>
    if eventName.length ≤ 211 then
      (contractOf sha256 stack contractAddress).map fun address =>
        .listEventStream ⟨address.toList, eventName, 0, 0, true, [], 0⟩
    else none
  | .receipt txnHash => some (.getReceipt txnHash.toList)
  | .blocks => some .listBlockStream
  | .blockchainStatus => some .blockchain
  | .accountState pubkey => some (.getState pubkey.toList)

/-- The texts are small enough for the length of a message to fit its header, and for the key of a variable to fit its
buffer. -/
def Inquiry.Sized : Inquiry → Prop
  | .query _ function args => function.length + (args.getD []).length + 300 ≤ 2 ^ 32
  | .stateVariable _ varName => ∃ v : StateKey.Variable, v.Ok ∧ v.Fits ∧ v.varName = varName
  | .events _ eventName => eventName.length < 2 ^ 64
  | _ => True

/-! ### The address read back -/

section Url

variable {connection : Connection} {service : Service} {c : UInt8}

lemma intText_notMem_slash (n : ℤ) : (0x2f : UInt8) ∉ intText n := by
  have hdigits : ∀ k : ℕ, (0x2f : UInt8) ∉ decText k := fun k h => absurd (isDigit_decText h) (by decide)
  unfold intText
  split
  · rw [List.mem_cons, not_or]
    exact ⟨by decide, hdigits _⟩
  · exact hdigits _

lemma serviceName_length_le (service : Service) : (serviceName service).length ≤ 18 := by
  cases service <;> decide

/-- **The address is complete, and names the service.** -/
lemma serviceOf_requestUrl (hslash : 0x2f ∉ connection.host) (hlo : -2 ^ 31 ≤ connection.port)
    (hhi : connection.port < 2 ^ 31) : serviceOf (requestUrl connection service) = some (serviceName service) := by
  have hhost := connection.host_lt
  have hport := intText_length_le hlo hhi
  have hname := serviceName_length_le service
  have hscheme : schemeText.length = 7 := rfl
  have htypes : serviceText.length = 23 := rfl
  have hurl : requestUrl connection service =
      schemeText ++ ((connection.host ++ 0x3a :: intText connection.port) ++ (serviceText ++ serviceName service)) := by
    unfold requestUrl
    rw [List.take_of_length_le]
    · simp
    · simp only [List.length_append, List.length_cons, hscheme, htypes]
      omega
  have hno : ∀ c ∈ connection.host ++ 0x3a :: intText connection.port, decide (c ≠ 0x2f) = true := by
    intro c hc
    rw [decide_eq_true_iff]
    rintro rfl
    rcases List.mem_append.mp hc with hc | hc
    · exact hslash hc
    · rcases List.mem_cons.mp hc with hc | hc
      · exact absurd hc (by decide)
      · exact intText_notMem_slash _ hc
  have htarget : ((requestUrl connection service).drop schemeText.length).dropWhile (· ≠ 0x2f) =
      serviceText ++ serviceName service := by
    rw [hurl, List.drop_left, List.dropWhile_append_of_pos hno]
    rfl
  unfold serviceOf
  rw [htarget, if_pos (List.prefix_append ..), List.drop_left]

end Url

/-! ### The messages read back -/

section Messages

variable {sha256 : Bytes → Hash} {stack : ℕ → UInt8} {fields : List (PbField × FieldData)} {fs : List Wire.Field}
  {bs : Bytes} {psize : ℕ} {q : Inquiry} {ask : Ask}

lemma readFrame_frame (h : bs.length < 2 ^ 32) : readFrame (encodeHttp2DataFrame bs) = some bs := by
  have hdrop := frame_drop bs
  have hhead : (encodeHttp2DataFrame bs).take 1 = [0] := rfl
  have hlength : ((encodeHttp2DataFrame bs).drop 1).take 4 = beBytes 4 bs.length :=
    List.take_left' (beBytes_length 4 bs.length)
  have hfive : 5 ≤ (encodeHttp2DataFrame bs).length := by
    simp only [encodeHttp2DataFrame, List.length_append, List.length_cons, beBytes_length]
    omega
  have hmod : beNat (beBytes 4 bs.length) = bs.length := by
    rw [beNat_beBytes]
    exact Nat.mod_eq_of_lt h
  unfold readFrame
  rw [hdrop, hlength, hmod]
  exact if_pos ⟨hhead, rfl, hfive⟩

lemma encodeMessage_eq (h : Emits (pbEncode fields) bs) (psize : ℕ) (h5 : 5 ≤ psize) (hlt : psize < 2 ^ 64) :
    encodeMessage fields psize =
      if bs.length + 5 ≤ psize then .ok (encodeHttp2DataFrame bs) else .error "stream full" := by
  unfold encodeMessage
  rw [h.fromBuffer, roomOf_eq h5 hlt]
  by_cases hfit : bs.length + 5 ≤ psize
  · rw [if_pos hfit, if_pos (by omega)]
    rfl
  · rw [if_neg hfit, if_neg (by omega)]
    rfl

/-- **The message of an inquiry**: it fits the buffer, and its fields ask what the caller asks. -/
structure Inquiry.Message (sha256 : Bytes → Hash) (stack : ℕ → UInt8) (q : Inquiry) (ask : Ask)
    (fs : List Wire.Field) : Prop where
  encoded : q.encode sha256 stack = .ok (encodeHttp2DataFrame (Wire.encode fs))
  fits : (Wire.encode fs).length + 5 ≤ q.psize
  small : (Wire.encode fs).length < 2 ^ 32
  ok : ∀ f ∈ fs, f.Ok
  asks : readAsk (serviceName q.service) fs = some ask

lemma encodeMessage_singleBytes (bs : Bytes) (psize : ℕ) (h0 : bs.length ≠ 0) (hlen : bs.length ≤ 120)
    (hp : 128 ≤ psize) (hlt : psize < 2 ^ 64) :
    encodeMessage (singleBytesFields bs) psize = .ok (encodeHttp2DataFrame (Wire.encode (lenField 1 bs))) ∧
      (Wire.encode (lenField 1 bs)).length + 5 ≤ 127 ∧ ∀ f ∈ lenField 1 bs, f.Ok := by
  have hlength : (Wire.encode (lenField 1 bs)).length = 2 + bs.length := lenField_length_short (by decide) (by omega)
  have hblob : blobField 1 bs = lenField 1 bs := if_neg h0
  have hemits : Emits (pbEncode (singleBytesFields bs)) (Wire.encode (lenField 1 bs)) := by
    have hone : Emits (pbEncode (singleBytesFields bs)) (Wire.encode (blobField 1 bs) ++ []) :=
      (emits_blob (by decide) (by omega)).cons pbEncode_nil
    rwa [hblob, List.append_nil] at hone
  refine ⟨?_, by omega, ok_lenField (by decide) (by decide) (by omega)⟩
  rw [encodeMessage_eq hemits psize (by omega) hlt, if_pos (by omega)]

lemma contractOf_eq_some {contractAddress : Bytes} {address : Address} :
    contractOf sha256 stack contractAddress = some address ↔
      contractAddress.length = 52 ∧ decodeAddress sha256 stack contractAddress = some address := by
  unfold contractOf
  split <;> simp_all

lemma contractOf_eq_none {contractAddress : Bytes} : contractOf sha256 stack contractAddress = none ↔
    contractAddress.length ≠ 52 ∨ decodeAddress sha256 stack contractAddress = none := by
  unfold contractOf
  split <;> simp_all

lemma queryInfo_eq (function args : Bytes) : queryInfo function args = queryText function args := by
  have hname : nameText.length = 9 := rfl
  have hargs : argsText.length = 9 := rfl
  unfold queryInfo objectText queryText
  dsimp only
  split
  · rw [List.take_of_length_le]
    simp only [List.length_append, List.length_cons, List.length_nil, hname]
    omega
  · rw [List.take_of_length_le]
    simp only [List.length_append, List.length_cons, List.length_nil, hname, hargs]
    omega

lemma queryText_length_le (function args : Bytes) :
    (queryText function args).length ≤ function.length + args.length + 19 := by
  have hname : nameText.length = 9 := rfl
  have hargs : argsText.length = 9 := rfl
  unfold queryText
  split
  · simp only [List.length_append, List.length_cons, List.length_nil, hname]
    omega
  · simp only [List.length_append, List.length_cons, List.length_nil, hname, hargs]
    omega

lemma message_query {contractAddress function : Bytes} {args : Option Bytes} {address : Address}
    (hsize : function.length + (args.getD []).length + 300 ≤ 2 ^ 32)
    (haddress : contractOf sha256 stack contractAddress = some address) :
    ∃ fs, (Inquiry.query contractAddress function args).Message sha256 stack
      (.queryContract address.toList (queryText function (args.getD []))) fs := by
  obtain ⟨hlen, hdecode⟩ := contractOf_eq_some.mp haddress
  have htext := queryText_length_le function (args.getD [])
  have hfirst : (Wire.encode (lenField 1 address.toList)).length = 35 :=
    (lenField_length_short (by decide) (by simp)).trans (by simp)
  have hsecond := lenField_length_le (k := 2) (by decide) (queryText function (args.getD [])) (by omega)
  have hinfo : Emits (encodeField ⟨2, .bytes⟩ (.callback (some (encodeString (some (queryText function (args.getD [])))))))
      (Wire.encode (lenField 2 (queryText function (args.getD [])))) :=
    emits_string (by decide) (by rw [Option.getD_some]; omega)
  have hfields := (StateKey.emits_contractAddress hlen hdecode).cons (hinfo.cons pbEncode_nil)
  rw [List.append_nil, ← Wire.encode_append] at hfields
  have hlength : (Wire.encode (lenField 1 address.toList ++ lenField 2 (queryText function (args.getD [])))).length ≤
      function.length + (args.getD []).length + 60 := by
    rw [Wire.encode_append, List.length_append, hfirst]
    omega
  refine ⟨lenField 1 address.toList ++ lenField 2 (queryText function (args.getD [])), ?_, ?_, by omega, ?_, rfl⟩
  · have hfrom := hfields.fromBuffer (function.length + (args.getD []).length + 300 - 5)
    rw [if_pos (by omega)] at hfrom
    unfold Inquiry.encode
    dsimp only
    rw [queryInfo_eq, encodeQuery]
    exact congrArg (Except.map fun stream : OStream => encodeHttp2DataFrame stream.written) hfrom
  · show _ ≤ function.length + (args.getD []).length + 300
    omega
  · exact ok_append (ok_lenField (by decide) (by decide) (by simp)) (ok_lenField (by decide) (by decide) (by omega))

lemma message_stateVariable {contractAddress : Bytes} {v : StateKey.Variable} (hv : v.Ok) (hfits : v.Fits)
    {address : Address} (haddress : contractOf sha256 stack contractAddress = some address) :
    ∃ fs, (Inquiry.stateVariable contractAddress v.varName).Message sha256 stack
      (.queryContractState address.toList [] true [(sha256 v.storageKey).toList]) fs := by
  obtain ⟨hlen, hdecode⟩ := contractOf_eq_some.mp haddress
  have hlength := StateKey.queryFields_length address (sha256 v.storageKey)
  refine ⟨StateKey.queryFields address (sha256 v.storageKey), ?_, ?_, by omega, ?_, rfl⟩
  · have hroom : 71 ≤ (1024 + (2 ^ 64 - 5)) % 2 ^ 64 := by decide
    have hresult : (StateKey.encodeStateQuery sha256 stack 1024 contractAddress v.varName).result = _ :=
      StateKey.result_eq hlen hdecode
    rw [if_pos hroom, (StateKey.keyBuffer_eq_iff hv).mpr hfits] at hresult
    exact hresult
  · show _ ≤ 1024
    omega
  · exact ok_append (ok_lenField (by decide) (by decide) (by simp))
      (ok_append (ok_numField (by decide) (by decide) (by decide)) (ok_lenField (by decide) (by decide) (by simp)))

def filterFields (address : Address) (eventName : Bytes) : List Wire.Field :=
  lenField 1 address.toList ++ (lenField 2 eventName ++ numField 5 1)

lemma emits_filterInfoFields {contractAddress eventName : Bytes} {address : Address}
    (hname : eventName.length < 2 ^ 64) (haddress : contractOf sha256 stack contractAddress = some address) :
    Emits (pbEncode (filterInfoFields sha256 stack contractAddress (some eventName)))
      (Wire.encode (filterFields address eventName)) := by
  obtain ⟨hlen, hdecode⟩ := contractOf_eq_some.mp haddress
  have hzero : ∀ k, Emits (encodeField ⟨k, .uvarint⟩ (.uvarint 0)) [] := fun k => emits_pure
  have hevent : Emits (encodeField ⟨2, .string⟩ (.callback (some (encodeString (some eventName)))))
      (Wire.encode (lenField 2 eventName)) := Emits.callback (emits_len ⟨2, .string⟩ (by decide) rfl hname)
  have hdesc : Emits (encodeField ⟨5, .bool⟩ (.bool true)) (Wire.encode (numField 5 1)) := by
    have hone : Emits (pbEncodeVarint 1) (varint 1) := emits_pbEncodeVarint (by decide)
    exact (emits_pbEncodeTagForField ⟨5, .bool⟩ (by decide)).bind hone
  have hnone : Emits (encodeField ⟨6, .bytes⟩ (.callback none)) [] := emits_pure
  have hfields := (StateKey.emits_contractAddress hlen hdecode).cons <| hevent.cons <| (hzero 3).cons <| (hzero 4).cons <|
    hdesc.cons <| hnone.cons <| (hzero 7).cons pbEncode_nil
  simpa [filterFields, filterInfoFields, Wire.encode_append] using hfields

/-- A filter fits the buffer of 256 bytes exactly if the name has 211 bytes at most. -/
lemma filterFields_fits (address : Address) (eventName : Bytes) :
    (Wire.encode (filterFields address eventName)).length + 5 ≤ 256 ↔ eventName.length ≤ 211 := by
  have hfirst : (Wire.encode (lenField 1 address.toList)).length = 35 :=
    (lenField_length_short (by decide) (by simp)).trans (by simp)
  have hdesc : (Wire.encode (numField 5 1)).length = 2 := by decide
  have hsecond := lenField_length (k := 2) (by decide) eventName
  have hpos := varint_length_pos eventName.length
  rw [filterFields, Wire.encode_append, Wire.encode_append, List.length_append, List.length_append, hfirst, hdesc,
    hsecond]
  rcases Nat.lt_or_ge eventName.length 128 with hlt | hge
  · rw [varint_of_lt hlt, List.length_singleton]
    omega
  · have hlong := two_le_varint_length hge
    rcases Nat.lt_or_ge eventName.length (128 ^ 2) with hlt | hge'
    · have htwo := varint_length_le_of_lt (k := 1) hlt
      omega
    · omega

lemma message_events {contractAddress eventName : Bytes} {address : Address} (hname : eventName.length ≤ 211)
    (haddress : contractOf sha256 stack contractAddress = some address) :
    (Inquiry.events contractAddress eventName).Message sha256 stack
      (.listEventStream ⟨address.toList, eventName, 0, 0, true, [], 0⟩) (filterFields address eventName) := by
  have hfits := (filterFields_fits address eventName).mpr hname
  refine ⟨?_, hfits, by omega, ?_, ?_⟩
  · exact (encodeMessage_eq (emits_filterInfoFields (by omega) haddress) 256 (by decide) (by decide)).trans
      (if_pos hfits)
  · exact ok_append (ok_lenField (by decide) (by decide) (by simp))
      (ok_append (ok_lenField (by decide) (by decide) (by omega)) (ok_numField (by decide) (by decide) (by decide)))
  · rfl

/-- A filter that names no contract, or an event whose name is too long, is refused. -/
lemma events_refused {contractAddress eventName : Bytes} (hname : eventName.length < 2 ^ 64)
    (h : ¬ eventName.length ≤ 211 ∨ contractOf sha256 stack contractAddress = none) :
    ∃ error, (Inquiry.events contractAddress eventName).encode sha256 stack = .error error := by
  rcases Option.eq_none_or_eq_some (contractOf sha256 stack contractAddress) with hnone | ⟨address, haddress⟩
  · refine ⟨"callback error", ?_⟩
    unfold Inquiry.encode encodeFilterInfo encodeMessage filterInfoFields
    dsimp only
    rw [pbEncode, encodeField, StateKey.encodeAccountAddress_refused (contractOf_eq_none.mp hnone)]
    rfl
  · have hlong := h.resolve_right (by simp [haddress])
    have hfits := mt (filterFields_fits address eventName).mp hlong
    have hencoded := encodeMessage_eq (emits_filterInfoFields hname haddress) 256 (by decide) (by decide)
    exact ⟨"stream full", hencoded.trans (if_neg hfits)⟩

/-- **What can be asked is encoded, and nothing else.** -/
lemma Inquiry.message (hq : q.Sized) : (∀ ask, q.ask sha256 stack = some ask → ∃ fs, q.Message sha256 stack ask fs) ∧
    (q.ask sha256 stack = none → ∃ error, q.encode sha256 stack = .error error) := by
  have hempty : ∀ psize, 5 ≤ psize → psize < 2 ^ 64 →
      encodeEmptyMessage psize = .ok (encodeHttp2DataFrame (Wire.encode [])) :=
    fun psize h5 hlt => (encodeMessage_eq pbEncode_nil psize h5 hlt).trans (if_pos h5)
  cases q with
  | query contractAddress function args =>
    refine ⟨fun ask hask => ?_, fun hnone => ⟨"callback error", ?_⟩⟩
    · obtain ⟨address, haddress, rfl⟩ := Option.map_eq_some_iff.mp hask
      exact message_query hq haddress
    · have hrefused := contractOf_eq_none.mp (Option.map_eq_none_iff.mp hnone)
      exact encodeQuery_error (fun h => hrefused.elim (absurd h.1) (absurd · h.2)) _
  | stateVariable contractAddress varName =>
    obtain ⟨v, hv, hfits, rfl⟩ := hq
    refine ⟨fun ask hask => ?_, fun hnone => ⟨"callback error", ?_⟩⟩
    · obtain ⟨address, haddress, rfl⟩ := Option.map_eq_some_iff.mp hask
      rw [StateKey.Variable.ofVarName_varName hv]
      exact message_stateVariable hv hfits haddress
    · exact StateKey.result_refused (contractOf_eq_none.mp (Option.map_eq_none_iff.mp hnone))
  | events contractAddress eventName =>
    by_cases hname : eventName.length ≤ 211
    · have hask : (Inquiry.events contractAddress eventName).ask sha256 stack =
          (contractOf sha256 stack contractAddress).map fun address =>
            .listEventStream ⟨address.toList, eventName, 0, 0, true, [], 0⟩ := if_pos hname
      rw [hask]
      refine ⟨fun ask hask => ?_, fun hnone => events_refused hq (.inr (Option.map_eq_none_iff.mp hnone))⟩
      obtain ⟨address, haddress, rfl⟩ := Option.map_eq_some_iff.mp hask
      exact ⟨_, message_events hname haddress⟩
    · have hask : (Inquiry.events contractAddress eventName).ask sha256 stack = none := if_neg hname
      exact ⟨fun ask h => absurd (hask.symm.trans h) (by simp), fun _ => events_refused hq (.inl hname)⟩
  | receipt txnHash =>
    have hlen : txnHash.toList.length = 32 := Vector.length_toList
    obtain ⟨hencoded, hfits, hok⟩ := encodeMessage_singleBytes txnHash.toList 256 (by omega) (by omega) (by decide)
      (by decide)
    refine ⟨fun ask hask => ?_, nofun⟩
    obtain rfl := Option.some.inj hask
    exact ⟨_, hencoded, by show _ ≤ 256; omega, by omega, hok, rfl⟩
  | blocks =>
    refine ⟨fun ask hask => ?_, nofun⟩
    obtain rfl := Option.some.inj hask
    exact ⟨[], hempty 32 (by decide) (by decide), by decide, by decide, by simp, rfl⟩
  | blockchainStatus =>
    refine ⟨fun ask hask => ?_, nofun⟩
    obtain rfl := Option.some.inj hask
    exact ⟨[], hempty 128 (by decide) (by decide), by decide, by decide, by simp, rfl⟩
  | accountState pubkey =>
    have hlen : pubkey.toList.length = 33 := Vector.length_toList
    obtain ⟨hencoded, hfits, hok⟩ := encodeMessage_singleBytes pubkey.toList 128 (by omega) (by omega) (by decide)
      (by decide)
    refine ⟨fun ask hask => ?_, nofun⟩
    obtain rfl := Option.some.inj hask
    exact ⟨_, hencoded, by show _ ≤ 128; omega, by omega, hok, rfl⟩

/-- **The node reads the inquiry.** -/
lemma Inquiry.Message.read (h : q.Message sha256 stack ask fs) {connection : Connection}
    (hslash : 0x2f ∉ connection.host) (hlo : -2 ^ 31 ≤ connection.port) (hhi : connection.port < 2 ^ 31) :
    readPost (requestUrl connection q.service) (encodeHttp2DataFrame (Wire.encode fs)) = some ask := by
  unfold readPost
  rw [serviceOf_requestUrl hslash hlo hhi, readFrame_frame h.small, Option.bind_eq_bind, Option.bind_some,
    Option.bind_eq_bind, Option.bind_some, Wire.decode_encode h.ok]
  exact h.asks

end Messages

/-! ### The calls -/

section Calls

variable (S : Setup) (w : World)

/-- The end of these functions, from the encoder on. -/
def post (q : Inquiry) (c : Call) (acts : List Act) : Option Arguments.Outcome :=
  match q.encode S.sha256 S.stack with
  | .error _ => some (refused w)
  | .ok data => sendGrpcRequest S.env w data c acts

/-- The request of `aergo_query_smart_contract_state_variable__internal`. -/
def stateVariableCall (cb : Option ℕ) (arg : ℕ) (result : Option ℕ) (resultlen : ℕ) (start : Start) : Call where
  service := .queryStateVar
  callback := cb
  stream := nofun
  wait := nofun
  arg := arg
  returnPtr := result
  returnSize := resultlen
  txnHash := Vector.replicate 32 0
  account := none
  start := start

/-- The request of `aergo_contract_events_subscribe`. -/
def contractEventsCall (cb arg : ℕ) (start : Start) : Call where
  service := .events
  callback := some cb
  stream := fun _ => rfl
  wait := nofun
  arg := arg
  returnPtr := none
  returnSize := 0
  txnHash := Vector.replicate 32 0
  account := none
  start := start

/-- The request of `aergo_get_receipt__internal` without a parent. -/
def receiptCall (cb : Option ℕ) (arg : ℕ) (receipt : Option ℕ) (txnHash : Hash) (start : Start) : Call where
  service := .receipt
  callback := cb
  stream := nofun
  wait := nofun
  arg := arg
  returnPtr := receipt
  returnSize := 0
  txnHash := txnHash
  account := none
  start := start

def blockStreamCall (cb : ℕ) (start : Start) : Call where
  service := .blocks
  callback := some cb
  stream := fun _ => rfl
  wait := nofun
  arg := 0
  returnPtr := none
  returnSize := 0
  txnHash := Vector.replicate 32 0
  account := none
  start := start

/-- `aergo_query_smart_contract_state_variable__internal`; the null byte that it writes to the result is left out. -/
def aergoQuerySmartContractStateVariableInternal (cb : Option ℕ) (arg : ℕ) (result : Option ℕ) (resultlen : ℕ)
    (contractAddress varName : Bytes) (wait : Wait) : Option Arguments.Outcome :=
  if S.env.malloc 1024 = false then some (refused w)
  else post S w (.stateVariable contractAddress varName) (stateVariableCall cb arg result resultlen wait.start) wait.acts

def aergoQuerySmartContractStateVariable (result : Option ℕ) (resultlen : ℤ) (contractAddress varName : Bytes)
    (wait : Wait) : Option Arguments.Outcome :=
  if result = none ∨ resultlen ≤ 0 then some (refused w)
  else
    aergoQuerySmartContractStateVariableInternal S w none 0 result resultlen.toNat contractAddress varName wait

def aergoQuerySmartContractStateVariableAsync (cb : Option ℕ) (arg : ℕ) (contractAddress varName : Bytes)
    (wait : Wait) : Option Arguments.Outcome :=
  if cb = none then some (refused w)
  else aergoQuerySmartContractStateVariableInternal S w cb arg none 0 contractAddress varName wait

def aergoContractEventsSubscribe (contractAddress eventName : Bytes) (cb : Option ℕ) (arg : ℕ) (wait : Wait) :
    Option Arguments.Outcome :=
  match cb with
  | none => some (refused w)
  | some cb => post S w (.events contractAddress eventName) (contractEventsCall cb arg wait.start) wait.acts

/-- `aergo_get_receipt__internal` without a parent. -/
def aergoGetReceiptInternal (txnHash : Hash) (cb : Option ℕ) (arg : ℕ) (receipt : Option ℕ) (wait : Wait) :
    Option Arguments.Outcome :=
  post S w (.receipt txnHash) (receiptCall cb arg receipt txnHash wait.start) wait.acts

def aergoGetReceipt (txnHash : Hash) (receipt : Option ℕ) (wait : Wait) : Option Arguments.Outcome :=
  if receipt = none then some (refused w) else aergoGetReceiptInternal S w txnHash none 0 receipt wait

def aergoGetReceiptAsync (txnHash : Hash) (cb : Option ℕ) (arg : ℕ) (wait : Wait) : Option Arguments.Outcome :=
  if cb = none then some (refused w) else aergoGetReceiptInternal S w txnHash cb arg none wait

def aergoBlockStreamSubscribe (cb : Option ℕ) (wait : Wait) : Option Arguments.Outcome :=
  match cb with
  | none => some (refused w)
  | some cb => post S w .blocks (blockStreamCall cb wait.start) wait.acts

def aergoGetBlockchainStatus (wait : Wait) : Option Arguments.Outcome :=
  post S w .blockchainStatus (blockchainStatusCall wait.start) wait.acts

/-- `account->is_updated = false` -/
def outdate (a : ℕ) : World :=
  { w with accounts := Function.update w.accounts a { w.accounts a with isUpdated := false } }

/-- `aergo_get_account_state` with its encoder: the value is that of `is_updated`. -/
def aergoGetAccountState (a : ℕ) (account : Account) (wait : Wait) : Option Arguments.Outcome :=
  match publicKey S.publicKeys account with
  | .error _ => some (refused w)
  | .ok pubkey =>
    (post S (outdate w a) (.accountState pubkey) (accountStateCall a wait.start) wait.acts).map fun out =>
      { out with value := (out.world.accounts a).isUpdated }

/-- The calls that send no transaction. -/
inductive ApiCall where
  | querySmartContractJson (result : Option ℕ) (resultlen : ℤ) (contractAddress function : Bytes) (args : Option Bytes)
  | querySmartContractJsonAsync (cb : Option ℕ) (arg : ℕ) (contractAddress function : Bytes) (args : Option Bytes)
  | querySmartContractStateVariable (result : Option ℕ) (resultlen : ℤ) (contractAddress varName : Bytes)
  | querySmartContractStateVariableAsync (cb : Option ℕ) (arg : ℕ) (contractAddress varName : Bytes)
  | contractEventsSubscribe (contractAddress eventName : Bytes) (cb : Option ℕ) (arg : ℕ)
  | getReceipt (txnHash : Hash) (receipt : Option ℕ)
  | getReceiptAsync (txnHash : Hash) (cb : Option ℕ) (arg : ℕ)
  | blockStreamSubscribe (cb : Option ℕ)
  | getBlockchainStatus
  | getAccountState (a : ℕ) (account : Account)

namespace ApiCall

/-- What the call comes to. -/
def run (wait : Wait) : ApiCall → Option Arguments.Outcome
  | querySmartContractJson result resultlen contractAddress function args =>
    aergoQuerySmartContractJson S w result resultlen contractAddress function args wait
  | querySmartContractJsonAsync cb arg contractAddress function args =>
    aergoQuerySmartContractJsonAsync S w cb arg contractAddress function args wait
  | querySmartContractStateVariable result resultlen contractAddress varName =>
    aergoQuerySmartContractStateVariable S w result resultlen contractAddress varName wait
  | querySmartContractStateVariableAsync cb arg contractAddress varName =>
    aergoQuerySmartContractStateVariableAsync S w cb arg contractAddress varName wait
  | contractEventsSubscribe contractAddress eventName cb arg =>
    aergoContractEventsSubscribe S w contractAddress eventName cb arg wait
  | getReceipt txnHash receipt => aergoGetReceipt S w txnHash receipt wait
  | getReceiptAsync txnHash cb arg => aergoGetReceiptAsync S w txnHash cb arg wait
  | blockStreamSubscribe cb => aergoBlockStreamSubscribe S w cb wait
  | getBlockchainStatus => aergoGetBlockchainStatus S w wait
  | getAccountState a account => aergoGetAccountState S w a account wait

/-- The checks of the arguments; the other pointers are not null. -/
def Accepts : ApiCall → Prop
  | querySmartContractJson result resultlen _ _ _ => result ≠ none ∧ 0 < resultlen
  | querySmartContractJsonAsync cb _ _ _ _ => cb ≠ none
  | querySmartContractStateVariable result resultlen _ _ => result ≠ none ∧ 0 < resultlen
  | querySmartContractStateVariableAsync cb _ _ _ => cb ≠ none
  | contractEventsSubscribe _ _ cb _ => cb ≠ none
  | getReceipt _ receipt => receipt ≠ none
  | getReceiptAsync _ cb _ => cb ≠ none
  | blockStreamSubscribe cb => cb ≠ none
  | getBlockchainStatus => True
  | getAccountState _ _ => True

def mallocs : ApiCall → List ℕ
  | querySmartContractJson _ _ _ function args | querySmartContractJsonAsync _ _ _ function args =>
    [function.length + (args.getD []).length + 32, function.length + (args.getD []).length + 300]
  | querySmartContractStateVariable _ _ _ _ | querySmartContractStateVariableAsync _ _ _ _ => [1024]
  | _ => []

/-- What is asked: the state of an account is that of its public key, if there is one. -/
def inquiry (P : PublicKeys) : ApiCall → Option Inquiry
  | querySmartContractJson _ _ contractAddress function args
  | querySmartContractJsonAsync _ _ contractAddress function args => some (.query contractAddress function args)
  | querySmartContractStateVariable _ _ contractAddress varName
  | querySmartContractStateVariableAsync _ _ contractAddress varName => some (.stateVariable contractAddress varName)
  | contractEventsSubscribe contractAddress eventName _ _ => some (.events contractAddress eventName)
  | getReceipt txnHash _ | getReceiptAsync txnHash _ _ => some (.receipt txnHash)
  | blockStreamSubscribe _ => some .blocks
  | getBlockchainStatus => some .blockchainStatus
  | getAccountState _ account => (publicKey P account).toOption.map .accountState

/-- What is asked, if it can be. -/
def ask (api : ApiCall) : Option Ask := (api.inquiry S.publicKeys).bind (Inquiry.ask S.sha256 S.stack)

def service : ApiCall → Service
  | querySmartContractJson _ _ _ _ _ | querySmartContractJsonAsync _ _ _ _ _ => .query
  | querySmartContractStateVariable _ _ _ _ | querySmartContractStateVariableAsync _ _ _ _ => .queryStateVar
  | contractEventsSubscribe _ _ _ _ => .events
  | getReceipt _ _ | getReceiptAsync _ _ _ => .receipt
  | blockStreamSubscribe _ => .blocks
  | getBlockchainStatus => .blockchainStatus
  | getAccountState _ _ => .accountState

/-- The instance before the request is made. -/
def before : ApiCall → World
  | getAccountState a _ => outdate w a
  | _ => w

/-- The request, if the arguments are accepted. -/
def call (start : Start) : ApiCall → Option Call
  | querySmartContractJson result resultlen _ _ _ =>
    if result ≠ none ∧ 0 < resultlen then some (queryCall none 0 result resultlen.toNat start) else none
  | querySmartContractJsonAsync cb arg _ _ _ => if cb ≠ none then some (queryCall cb arg none 0 start) else none
  | querySmartContractStateVariable result resultlen _ _ =>
    if result ≠ none ∧ 0 < resultlen then some (stateVariableCall none 0 result resultlen.toNat start) else none
  | querySmartContractStateVariableAsync cb arg _ _ =>
    if cb ≠ none then some (stateVariableCall cb arg none 0 start) else none
  | contractEventsSubscribe _ _ cb arg => cb.map fun cb => contractEventsCall cb arg start
  | getReceipt txnHash receipt => if receipt ≠ none then some (receiptCall none 0 receipt txnHash start) else none
  | getReceiptAsync txnHash cb arg => if cb ≠ none then some (receiptCall cb arg none txnHash start) else none
  | blockStreamSubscribe cb => cb.map fun cb => blockStreamCall cb start
  | getBlockchainStatus => some (blockchainStatusCall start)
  | getAccountState a _ => some (accountStateCall a start)

/-- **What the call comes to**: the bytes that it hands over, and its request. -/
def posting (start : Start) (api : ApiCall) : Option (Bytes × Call) :=
  if api.mallocs.all S.env.malloc = true then
    (api.call start).bind fun c => (api.inquiry S.publicKeys).bind fun q =>
      (q.encode S.sha256 S.stack).toOption.map fun data => (data, c)
  else none

end ApiCall

end Calls

/-! ### What is posted -/

section Posted

variable {S : Setup} {w : World} {connection : Connection} {q : Inquiry} {c : Call} {acts : List Act} {data : Bytes}
  {out : Arguments.Outcome} {api : ApiCall} {wait : Wait} {E : Env}

lemma sendGrpcRequest_eq (E : Env) (w : World) (data : Bytes) (c : Call) (acts : List Act) :
    sendGrpcRequest E w data c acts =
      (if c.callback.isSome then some (w.call c) else w.syncCall E c acts).map fun w =>
        ⟨if c.start = .noRequest then none else some ⟨data, c.request⟩, w.returned.getD false, w⟩ := by
  unfold sendGrpcRequest
  by_cases hc : c.callback.isSome = true
  · rw [if_pos hc, if_pos hc]
    rfl
  · rw [if_neg hc, if_neg hc]
    exact Option.map_eq_bind.symm

lemma sendGrpcRequest_created (h : sendGrpcRequest E w data c acts = some out) :
    out.created = if c.start = .noRequest then none else some ⟨data, c.request⟩ := by
  rw [sendGrpcRequest_eq] at h
  obtain ⟨w', -, rfl⟩ := Option.map_eq_some_iff.mp h
  rfl

/-- Without an easy handle the call fails, and no account has changed. -/
lemma sendGrpcRequest_unsent (hstart : c.start = .noRequest ∨ c.start = .noHandle)
    (h : sendGrpcRequest E w data c acts = some out) : out.value = false ∧ out.world.accounts = w.accounts := by
  have hcall : (w.call c).returned = some false ∧ (w.call c).accounts = w.accounts ∧
      (w.call c).running = w.running := by
    unfold World.call
    rcases hstart with hstart | hstart <;> rw [hstart] <;> exact ⟨rfl, rfl, rfl⟩
  obtain ⟨hreturned, haccounts, hrunning⟩ := hcall
  have hsync : ∀ w', w.syncCall E c acts = some w' → w' = w.call c := by
    intro w' hw'
    unfold World.syncCall at hw'
    split at hw'
    · split at hw'
      · exact (Option.some.inj hw').symm
      · cases hw'
    · next hidle =>
      rw [← hrunning] at hidle
      cases acts with
      | nil =>
        rw [World.await, if_neg hidle] at hw'
        exact (Option.some.inj hw').symm
      | cons a as =>
        rw [World.await, if_neg hidle] at hw'
        cases hw'
  rw [sendGrpcRequest_eq] at h
  obtain ⟨w', hw', rfl⟩ := Option.map_eq_some_iff.mp h
  have hworld : w' = w.call c := by
    split at hw'
    · exact (Option.some.inj hw').symm
    · exact hsync w' hw'
  rw [hworld]
  exact ⟨by rw [hreturned]; rfl, haccounts⟩

lemma ApiCall.call_isSome (api : ApiCall) (start : Start) : (api.call start).isSome = true ↔ api.Accepts := by
  cases api <;> simp [ApiCall.call, ApiCall.Accepts, Option.isSome_iff_ne_none]

lemma ApiCall.call_eq {start : Start} (h : api.call start = some c) : c.service = api.service ∧ c.start = start := by
  cases api <;>
    simp only [ApiCall.call, Option.ite_none_right_eq_some, Option.map_eq_some_iff, Option.some.injEq] at h
  case contractEventsSubscribe | blockStreamSubscribe =>
    obtain ⟨cb, -, rfl⟩ := h
    exact ⟨rfl, rfl⟩
  case getBlockchainStatus | getAccountState =>
    obtain rfl := h
    exact ⟨rfl, rfl⟩
  all_goals
    obtain ⟨-, rfl⟩ := h
    exact ⟨rfl, rfl⟩

lemma ApiCall.inquiry_service {P : PublicKeys} (h : api.inquiry P = some q) : q.service = api.service := by
  cases api <;> simp only [ApiCall.inquiry, Option.some.injEq] at h
  case getAccountState =>
    obtain ⟨pubkey, -, rfl⟩ := Option.map_eq_some_iff.mp h
    rfl
  all_goals
    obtain rfl := h
    rfl

lemma ApiCall.posting_eq_some {start : Start} : api.posting S start = some (data, c) ↔
    api.mallocs.all S.env.malloc = true ∧ api.call start = some c ∧
      ∃ q, api.inquiry S.publicKeys = some q ∧ q.encode S.sha256 S.stack = .ok data := by
  have hoption : ∀ (e : Except String Bytes) data, e.toOption = some data ↔ e = .ok data := by
    rintro (error | bs) data <;> simp [Except.toOption]
  simp only [ApiCall.posting, Option.ite_none_right_eq_some, Option.bind_eq_some_iff, Option.map_eq_some_iff, hoption,
    Prod.mk.injEq]
  constructor
  · rintro ⟨hmallocs, c', hcall, q, hinquiry, data', hencode, rfl, rfl⟩
    exact ⟨hmallocs, hcall, q, hinquiry, hencode⟩
  · rintro ⟨hmallocs, hcall, q, hinquiry, hencode⟩
    exact ⟨hmallocs, c, hcall, q, hinquiry, data, hencode, rfl, rfl⟩

/-- The texts of the call are small enough. -/
def ApiCall.Sized (S : Setup) (api : ApiCall) : Prop := ∀ q, api.inquiry S.publicKeys = some q → q.Sized

/-- There is something to post exactly if there is something to ask. -/
lemma ApiCall.posting_isSome (hsized : api.Sized S) (start : Start) : (api.posting S start).isSome = true ↔
    api.Accepts ∧ api.mallocs.all S.env.malloc = true ∧ (api.ask S).isSome = true := by
  constructor
  · intro h
    obtain ⟨⟨data, c⟩, hposting⟩ := Option.isSome_iff_exists.mp h
    obtain ⟨hmallocs, hcall, q, hinquiry, hencode⟩ := ApiCall.posting_eq_some.mp hposting
    refine ⟨(api.call_isSome start).mp (Option.isSome_of_eq_some hcall), hmallocs, ?_⟩
    unfold ApiCall.ask
    rw [hinquiry, Option.bind_some, Option.isSome_iff_ne_none]
    intro hnone
    obtain ⟨error, herror⟩ := (q.message (hsized q hinquiry)).2 hnone
    cases herror.symm.trans hencode
  · rintro ⟨haccepts, hmallocs, hask⟩
    obtain ⟨c, hcall⟩ := Option.isSome_iff_exists.mp ((api.call_isSome start).mpr haccepts)
    obtain ⟨ask, hask⟩ := Option.isSome_iff_exists.mp hask
    obtain ⟨q, hinquiry, hask⟩ := Option.bind_eq_some_iff.mp hask
    obtain ⟨fs, hmessage⟩ := (q.message (hsized q hinquiry)).1 ask hask
    exact Option.isSome_of_eq_some (ApiCall.posting_eq_some.mpr ⟨hmallocs, hcall, q, hinquiry, hmessage.encoded⟩)

/-- The node reads a post as what is asked. -/
lemma ApiCall.posting_read {start : Start} (hslash : 0x2f ∉ connection.host) (hlo : -2 ^ 31 ≤ connection.port)
    (hhi : connection.port < 2 ^ 31) (hsized : api.Sized S) (h : api.posting S start = some (data, c)) :
    readPost (requestUrl connection api.service) data = api.ask S := by
  obtain ⟨-, -, q, hinquiry, hencode⟩ := ApiCall.posting_eq_some.mp h
  obtain ⟨hasks, hnone⟩ := q.message (hsized q hinquiry)
  unfold ApiCall.ask
  rw [hinquiry, Option.bind_some, ← ApiCall.inquiry_service hinquiry]
  rcases Option.eq_none_or_eq_some (q.ask S.sha256 S.stack) with hask | ⟨ask, hask⟩
  · obtain ⟨error, herror⟩ := hnone hask
    cases herror.symm.trans hencode
  · obtain ⟨fs, hmessage⟩ := hasks ask hask
    obtain rfl := Except.ok.inj (hmessage.encoded.symm.trans hencode)
    exact (hmessage.read hslash hlo hhi).trans hask.symm

lemma aergoQuerySmartContractInternal_eq (S : Setup) (w : World) (cb : Option ℕ) (arg : ℕ) (result : Option ℕ)
    (resultlen : ℕ) (contractAddress function : Bytes) (args : Option Bytes) (wait : Wait) :
    aergoQuerySmartContractInternal S w cb arg result resultlen contractAddress function args wait =
      if [function.length + (args.getD []).length + 32, function.length + (args.getD []).length + 300].all
          S.env.malloc = true then
        post S w (.query contractAddress function args) (queryCall cb arg result resultlen wait.start) wait.acts
      else some (refused w) := by
  unfold aergoQuerySmartContractInternal
  dsimp only
  split
  · next hmalloc =>
    rw [if_neg]
    rcases hmalloc with h | h <;> simp [h]
  · next hmalloc =>
    rw [not_or, Bool.not_eq_false, Bool.not_eq_false] at hmalloc
    rw [if_pos (by simpa using hmalloc)]
    rfl

lemma aergoQuerySmartContractStateVariableInternal_eq (S : Setup) (w : World) (cb : Option ℕ) (arg : ℕ)
    (result : Option ℕ) (resultlen : ℕ) (contractAddress varName : Bytes) (wait : Wait) :
    aergoQuerySmartContractStateVariableInternal S w cb arg result resultlen contractAddress varName wait =
      if [1024].all S.env.malloc = true then
        post S w (.stateVariable contractAddress varName) (stateVariableCall cb arg result resultlen wait.start)
          wait.acts
      else some (refused w) := by
  unfold aergoQuerySmartContractStateVariableInternal
  by_cases hmalloc : S.env.malloc 1024 = true <;> simp [hmalloc]

/-- **How a call goes**: it is refused, or sends what it posts. -/
inductive ApiCall.Course (S : Setup) (w : World) (wait : Wait) (api : ApiCall) (out : Arguments.Outcome) : Prop
  | rejected (hno : api.posting S wait.start = none) (hout : out = refused w)
  | posted (data : Bytes) (c : Call) (out₁ : Arguments.Outcome)
      (hposting : api.posting S wait.start = some (data, c))
      (hsend : sendGrpcRequest S.env (api.before w) data c wait.acts = some out₁)
      (hcreated : out.created = out₁.created) (hworld : out.world = out₁.world)
      (hvalue : out₁.value = false ∧ out₁.world.accounts = (api.before w).accounts → out.value = false)

/-- An inquiry is posted if it can be encoded. -/
lemma ApiCall.Course.of_post (h : post S w q c wait.acts = some out) (hbefore : api.before w = w) (hmallocs : api.mallocs.all S.env.malloc = true)
    (hcall : api.call wait.start = some c) (hinquiry : api.inquiry S.publicKeys = some q) :
    api.Course S w wait out := by
  rw [← hbefore] at h
  unfold post at h
  split at h
  · next error hencode =>
    refine .rejected ?_ ((Option.some.inj h).symm.trans (congrArg refused hbefore))
    rw [ApiCall.posting, if_pos hmallocs, hcall, Option.bind_some, hinquiry, Option.bind_some, hencode]
    rfl
  · next data hencode =>
    exact .posted data c out (ApiCall.posting_eq_some.mpr ⟨hmallocs, hcall, q, hinquiry, hencode⟩) h rfl rfl And.left

lemma ApiCall.Course.of_mallocs
    (h : (if api.mallocs.all S.env.malloc = true then post S w q c wait.acts else some (refused w)) = some out)
    (hbefore : api.before w = w) (hcall : api.call wait.start = some c) (hinquiry : api.inquiry S.publicKeys = some q) :
    api.Course S w wait out := by
  split at h
  · next hmallocs => exact .of_post h hbefore hmallocs hcall hinquiry
  · next hmallocs => exact .rejected (if_neg hmallocs) (Option.some.inj h).symm

lemma ApiCall.Course.of_call_none (hcall : api.call wait.start = none) (h : some (refused w) = some out) :
    api.Course S w wait out := by
  refine .rejected ?_ (Option.some.inj h).symm
  rw [ApiCall.posting, hcall, Option.bind_none, ite_self]

lemma ApiCall.course (h : api.run S w wait = some out) : api.Course S w wait out := by
  cases api with
  | querySmartContractJson result resultlen contractAddress function args =>
    change aergoQuerySmartContractJson S w result resultlen contractAddress function args wait = some out at h
    unfold aergoQuerySmartContractJson at h
    rw [aergoQuerySmartContractInternal_eq] at h
    split at h
    · next hresult => exact .of_call_none (if_neg (by rwa [not_and_or, not_not, not_lt])) h
    · next hresult => exact .of_mallocs h rfl (if_pos (by rwa [not_or, not_le] at hresult)) rfl
  | querySmartContractJsonAsync cb arg contractAddress function args =>
    change aergoQuerySmartContractJsonAsync S w cb arg contractAddress function args wait = some out at h
    unfold aergoQuerySmartContractJsonAsync at h
    rw [aergoQuerySmartContractInternal_eq] at h
    split at h
    · next hcb => exact .of_call_none (if_neg (not_not.mpr hcb)) h
    · next hcb => exact .of_mallocs h rfl (if_pos hcb) rfl
  | querySmartContractStateVariable result resultlen contractAddress varName =>
    change aergoQuerySmartContractStateVariable S w result resultlen contractAddress varName wait = some out at h
    unfold aergoQuerySmartContractStateVariable at h
    rw [aergoQuerySmartContractStateVariableInternal_eq] at h
    split at h
    · next hresult => exact .of_call_none (if_neg (by rwa [not_and_or, not_not, not_lt])) h
    · next hresult => exact .of_mallocs h rfl (if_pos (by rwa [not_or, not_le] at hresult)) rfl
  | querySmartContractStateVariableAsync cb arg contractAddress varName =>
    change aergoQuerySmartContractStateVariableAsync S w cb arg contractAddress varName wait = some out at h
    unfold aergoQuerySmartContractStateVariableAsync at h
    rw [aergoQuerySmartContractStateVariableInternal_eq] at h
    split at h
    · next hcb => exact .of_call_none (if_neg (not_not.mpr hcb)) h
    · next hcb => exact .of_mallocs h rfl (if_pos hcb) rfl
  | contractEventsSubscribe contractAddress eventName cb arg =>
    cases cb with
    | none => exact .of_call_none rfl h
    | some cb => exact .of_post h rfl rfl rfl rfl
  | getReceipt txnHash receipt =>
    change aergoGetReceipt S w txnHash receipt wait = some out at h
    unfold aergoGetReceipt at h
    split at h
    · next hreceipt => exact .of_call_none (if_neg (not_not.mpr hreceipt)) h
    · next hreceipt => exact .of_post h rfl rfl (if_pos hreceipt) rfl
  | getReceiptAsync txnHash cb arg =>
    change aergoGetReceiptAsync S w txnHash cb arg wait = some out at h
    unfold aergoGetReceiptAsync at h
    split at h
    · next hcb => exact .of_call_none (if_neg (not_not.mpr hcb)) h
    · next hcb => exact .of_post h rfl rfl (if_pos hcb) rfl
  | blockStreamSubscribe cb =>
    cases cb with
    | none => exact .of_call_none rfl h
    | some cb =>
      change post S w .blocks (blockStreamCall cb wait.start) wait.acts = some out at h
      exact .of_post h rfl rfl rfl rfl
  | getBlockchainStatus =>
    change post S w .blockchainStatus (blockchainStatusCall wait.start) wait.acts = some out at h
    exact .of_post h rfl rfl rfl rfl
  | getAccountState a account =>
    change aergoGetAccountState S w a account wait = some out at h
    unfold aergoGetAccountState at h
    split at h
    · next hkey =>
      refine .rejected ?_ (Option.some.inj h).symm
      simp [ApiCall.posting, ApiCall.inquiry, hkey, Except.toOption]
    · next pubkey hkey =>
      obtain ⟨out₁, hpost, rfl⟩ := Option.map_eq_some_iff.mp h
      have hinquiry : (ApiCall.getAccountState a account).inquiry S.publicKeys = some (.accountState pubkey) := by
        simp [ApiCall.inquiry, hkey, Except.toOption]
      -- the message fits, and the account was outdated before the request was made
      obtain ⟨fs, hmessage⟩ : ∃ fs, Inquiry.Message S.sha256 S.stack (.accountState pubkey) (.getState pubkey.toList) fs :=
        (Inquiry.message (q := .accountState pubkey) trivial).1 _ rfl
      unfold post at hpost
      rw [hmessage.encoded] at hpost
      refine .posted _ _ out₁ (ApiCall.posting_eq_some.mpr ⟨rfl, rfl, _, hinquiry, hmessage.encoded⟩) hpost rfl
        rfl fun hno => ?_
      dsimp only
      rw [hno.2]
      simp [ApiCall.before, outdate]

/-- What is posted: the bytes of the request, where its easy handle is made and libcurl takes it. -/
def posted (start : Start) (out : Arguments.Outcome) : Option Bytes :=
  if start = .sent true then out.created.map Created.data else none

/-- `localhost:7845` -/
def localhost : Connection where
  host := [0x6c, 0x6f, 0x63, 0x61, 0x6c, 0x68, 0x6f, 0x73, 0x74]
  port := 7845
  host_lt := by decide

/-- `aergo_get_blockchain_status` is the synchronous call that the transactions make. -/
lemma aergoGetBlockchainStatus_world (S : Setup) (w : World) (wait : Wait) :
    (aergoGetBlockchainStatus S w wait).map Arguments.Outcome.world =
      w.syncCall S.env (blockchainStatusCall wait.start) wait.acts := by
  obtain ⟨fs, hmessage⟩ : ∃ fs, Inquiry.Message S.sha256 S.stack .blockchainStatus .blockchain fs :=
    (Inquiry.message (q := .blockchainStatus) trivial).1 _ rfl
  unfold aergoGetBlockchainStatus post
  rw [hmessage.encoded]
  dsimp only
  rw [sendGrpcRequest_eq, Option.map_map]
  exact Option.map_id'

/-- `aergo_get_account_state` is the one that they make for the account: its message fits. -/
lemma aergoGetAccountState_eq (S : Setup) (w : World) (a : ℕ) (account : Account) (wait : Wait) :
    (aergoGetAccountState S w a account wait).map (fun out => (out.value, out.world)) =
      (Libaergo.aergoGetAccountState S.env S.publicKeys w a account wait).map fun r => (r.1.toBool, r.2) := by
  unfold aergoGetAccountState Libaergo.aergoGetAccountState
  cases hkey : publicKey S.publicKeys account with
  | error error => rfl
  | ok pubkey =>
    obtain ⟨fs, hmessage⟩ : ∃ fs, Inquiry.Message S.sha256 S.stack (.accountState pubkey) (.getState pubkey.toList) fs :=
      (Inquiry.message (q := .accountState pubkey) trivial).1 _ rfl
    have hpost : post S (outdate w a) (.accountState pubkey) (accountStateCall a wait.start) wait.acts =
        sendGrpcRequest S.env (outdate w a) (encodeHttp2DataFrame (Wire.encode fs)) (accountStateCall a wait.start)
          wait.acts := by
      unfold post
      rw [hmessage.encoded]
    have hcallback : ¬ (accountStateCall a wait.start).callback.isSome = true := by simp [accountStateCall]
    dsimp only
    rw [hpost, sendGrpcRequest_eq, if_neg hcallback, Option.map_map, Option.map_map]
    show _ = Option.map _ (((outdate w a).syncCall S.env (accountStateCall a wait.start) wait.acts).bind _)
    cases (outdate w a).syncCall S.env (accountStateCall a wait.start) wait.acts with
    | none => rfl
    | some w' =>
      cases hupdated : (w'.accounts a).isUpdated <;> simp [hupdated, Except.toBool]

end Posted

end Libaergo.Post
