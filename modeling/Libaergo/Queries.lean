import Libaergo.Nanopb.Decode
import Libaergo.Socket.Requests
import Mathlib.Data.List.TakeWhile

/-!
# The two modes of a query (`aergo.c`)

A query of a contract, or of one of its state variables, either waits for the answer and finds the text in
the result buffer of the caller, or has a callback that gets the text.  Both modes go through the same
handlers of the answer; what differs is whose memory the text is read into, what is in that memory before,
and which of the two results tells that nothing was found.
-/

namespace Libaergo.Query

open Lib Nanopb

/-! ### C strings -/

/-- The bytes before the first NUL. -/
def text (memory : Bytes) : Bytes := memory.takeWhile (· ≠ 0)

/-- The text in a memory, if a NUL ends it. -/
def cString (memory : Bytes) : Option Bytes := if 0 ∈ memory then some (text memory) else none

/-- Writes a text and a NUL, past the end of a memory that is too short for them. -/
def copyString (memory s : Bytes) : Bytes := s ++ 0 :: memory.drop (s.length + 1)

lemma text_append_nul (s rest : Bytes) : text (s ++ 0 :: rest) = text s := by
  induction s with
  | nil => rfl
  | cons byte s ih =>
    unfold text at ih ⊢
    rw [List.cons_append, List.takeWhile_cons, List.takeWhile_cons, ih]

lemma cString_append_nul (s rest : Bytes) : cString (s ++ 0 :: rest) = some (text s) := by
  rw [cString, if_pos (by simp), text_append_nul]

lemma cString_copyString (memory s : Bytes) : cString (copyString memory s) = some (text s) :=
  cString_append_nul s _

lemma cString_zero (rest : Bytes) : cString (0 :: rest) = some [] := cString_append_nul [] rest

lemma text_text (s : Bytes) : text (text s) = text s := List.takeWhile_idem ..

/-- The text begins with the memory, so the first byte tells whether it is empty. -/
lemma text_eq_nil_iff {memory : Bytes} : text memory = [] ↔ memory.headD 0 = 0 := by
  cases memory with
  | nil => exact ⟨fun _ => rfl, fun _ => rfl⟩
  | cons byte rest => simp [text, List.takeWhile_cons]

/-! ### Reading the value -/

/-- `struct blob`, and what a request has in `return_ptr` and `return_size`. -/
structure Blob where
  ptr : Bytes
  size : ℕ

def readString : Callback Blob := fun str stream =>
  if str.size < stream.length then (str, none)
  else ({ str with ptr := copyString str.ptr stream }, some [])

def singleBytesFields : Fields := [(1, .callback)]

def stateFields : Fields := [(1, .uint64), (2, .callback), (3, .callback), (4, .callback), (5, .uint64)]

def accountProofFields : Fields :=
  [(1, .message stateFields), (2, .bool), (3, .callback), (4, .callback), (5, .callback), (6, .callback),
    (7, .uint32), (8, .callback)]

def contractVarProofFields : Fields :=
  [(1, .callback), (2, .bool), (4, .callback), (5, .callback), (6, .callback), (7, .uint32), (8, .callback),
    (9, .callback)]

def stateQueryProofFields : Fields := [(1, .message accountProofFields), (2, .callback)]

section Decoders

variable {σ τ : Type*} (value : Callback σ)

/-- A `SingleBytes`, with a callback for its value. -/
def decodeSingleBytes : Callback σ := pbDecode singleBytesFields (setCallback 1 value)

/-- `read_contract_var_proof`, with a callback for the value. -/
def readContractVarProof : Callback σ := pbDecode contractVarProofFields (setCallback 1 value)

/-- A `StateQueryProof`, with `read_contract_var_proof` for its `varProofs`. -/
def decodeStateQueryProof : Callback σ :=
  pbDecode stateQueryProofFields (setCallback 2 (readContractVarProof value))

end Decoders

/-! ### The handlers -/

/-- What a handler of an answer does: what it returns, which `request->success` becomes, what it leaves in
the result buffer, and what it invokes the callback with, if it does: the success, and the memory that the
text is in. -/
structure Handled where
  success : Bool
  result : Bytes
  invoked : Option (Bool × Bytes)

/-- The memory that `malloc` returns, with what happens to be in it. -/
abbrev Malloc := (size : ℕ) → Option (Vector UInt8 size)

section Handlers

variable (malloc : Malloc) (callback : Bool) (returned : Blob)

def handleQueryError (errorMsg : Bytes) : Handled :=
  if callback then ⟨false, returned.ptr, some (false, errorMsg ++ [0])⟩
  else
    let size := (text errorMsg).length
    let size := if returned.size < size then returned.size - 1 else size
    ⟨false, copyString returned.ptr (errorMsg.take size), none⟩

/-- With a callback, the memory for the text is allocated, as much as was received. -/
def returnMemory (m : Bytes) : Option Blob :=
  if callback then (malloc (m.length + 5)).map fun memory => ⟨memory.toList, m.length + 5⟩
  else some returned

def handleQueryResponse (m : Bytes) : Handled :=
  match returnMemory malloc callback returned m with
  | none => ⟨false, returned.ptr, none⟩
  | some returned =>
    match decodeSingleBytes readString returned m with
    | (returned, none) => ⟨false, returned.ptr, none⟩
    | (returned, some _) =>
      ⟨true, returned.ptr, if callback then some (true, returned.ptr) else none⟩

/-- `memset(request->return_ptr, 0, request->return_size)` -/
def Blob.clear (blob : Blob) : Blob :=
  { blob with ptr := List.replicate blob.size 0 ++ blob.ptr.drop blob.size }

def handleQueryStateVarResponse (m : Bytes) : Handled :=
  match returnMemory malloc callback returned m with
  | none => ⟨false, returned.ptr, none⟩
  | some returned =>
    match decodeStateQueryProof readString returned.clear m with
    | (returned, none) => ⟨false, returned.ptr, none⟩
    | (returned, some _) =>
      let success : Bool := returned.ptr.headD 0 ≠ 0
      if callback then
        ⟨true, returned.ptr,
          some (success, if success then returned.ptr else noStateVariableText ++ [0])⟩
      else if success then ⟨true, returned.ptr, none⟩
      else ⟨true, copyString returned.ptr noStateVariableText, none⟩

end Handlers

/-! ### The calls -/

inductive Kind where
  | smartContract
  | stateVariable
  deriving DecidableEq

/-- What the server answers: a message, or the text of `grpc-message`. -/
inductive Answer where
  | message (m : Bytes)
  | error (errorMsg : Bytes)

def Answer.length : Answer → ℕ
  | .message m => m.length
  | .error errorMsg => (text errorMsg).length

/-- The handler of the answer to a query. -/
def handle (kind : Kind) (malloc : Malloc) (callback : Bool) (returned : Blob) : Answer → Handled
  | .error errorMsg => handleQueryError callback returned errorMsg
  | .message m =>
    match kind with
    | .smartContract => handleQueryResponse malloc callback returned m
    | .stateVariable => handleQueryStateVarResponse malloc callback returned m

/-- `aergo_query_smart_contract_json`, or `aergo_query_smart_contract_state_variable`, with this answer:
what it returns, which is the `success` of its request, and the result buffer. -/
def syncQuery (kind : Kind) (malloc : Malloc) (result : Bytes) (answer : Answer) : Bool × Bytes :=
  let handled := handle kind malloc false ⟨result.set 0 0, result.length⟩ answer
  (handled.success, handled.result)

/-- The same with a callback: what it is invoked with, if it is. -/
def asyncQuery (kind : Kind) (malloc : Malloc) (answer : Answer) : Option (Bool × Bytes) :=
  (handle kind malloc true ⟨[], 0⟩ answer).invoked

/-! ### What the answer says -/

/-- A callback that keeps the value itself. -/
def takeValue : Callback (Option Bytes) := fun _ stream => (some stream, some [])

def Kind.decode {σ : Type*} : Kind → Callback σ → Callback σ
  | .smartContract => decodeSingleBytes
  | .stateVariable => decodeStateQueryProof

/-- The value in a message, the last if there are several, unless the message does not decode. -/
def Kind.value (kind : Kind) (m : Bytes) : Option (Option Bytes) :=
  match kind.decode takeValue none m with
  | (_, none) => none
  | (value, some _) => some value

/-- The memory holds the value that was read last, or is as it was at first. -/
structure Blob.Holds (first : Blob) (blob : Blob) (value : Option Bytes) : Prop where
  size : blob.size = first.size
  absent : value = none → blob.ptr = first.ptr
  present : ∀ v, value = some v → cString blob.ptr = some (text v)

lemma Blob.Holds.first (blob : Blob) : blob.Holds blob none := ⟨rfl, fun _ => rfl, fun v hv => by cases hv⟩

section Values

variable {first : Blob} {n : ℕ}

lemma readString_sim (hn : n ≤ first.size) : Callback.Sim first.Holds n readString takeValue := by
  intro blob value stream hstream hholds
  have hfits : ¬ blob.size < stream.length := by
    rw [hholds.size]
    exact Nat.not_lt.mpr (hstream.trans hn)
  rw [readString, if_neg hfits]
  refine ⟨⟨hholds.size, fun h => (by cases h), fun v hv => ?_⟩, rfl, fun rest hrest => ?_⟩
  · obtain rfl := Option.some.inj hv
    exact cString_copyString _ _
  · obtain rfl := Option.some.inj hrest
    exact Nat.zero_le _

lemma Kind.decode_sim {σ τ : Type*} {R : σ → τ → Prop} {f : Callback σ} {g : Callback τ}
    (h : f.Sim R n g) (kind : Kind) : Callback.Sim R n (kind.decode f) (kind.decode g) := by
  cases kind with
  | smartContract => exact pbDecode_sim (setCallback_sim h 1) _
  | stateVariable =>
    exact pbDecode_sim (setCallback_sim (pbDecode_sim (setCallback_sim h 1) _) 2) _

/-- A message that does not decode fails, whatever was read before. -/
lemma Kind.decode_of_none (first : Blob) {kind : Kind} {m : Bytes} (hm : m.length ≤ first.size)
    (h : kind.value m = none) :
    ∃ blob value, kind.decode readString first m = (blob, none) ∧ first.Holds blob value := by
  obtain ⟨blob, value, o, hread, htake, hholds, -⟩ :=
    (kind.decode_sim (readString_sim hm)).cases le_rfl (Blob.Holds.first first)
  rw [Kind.value, htake] at h
  cases o with
  | none => exact ⟨blob, value, hread, hholds⟩
  | some rest => cases h

/-- **A message that decodes leaves its value in the memory.** -/
lemma Kind.decode_of_some (first : Blob) {kind : Kind} {m : Bytes} {value : Option Bytes}
    (hm : m.length ≤ first.size) (h : kind.value m = some value) :
    ∃ blob rest, kind.decode readString first m = (blob, some rest) ∧ first.Holds blob value := by
  obtain ⟨blob, value', o, hread, htake, hholds, -⟩ :=
    (kind.decode_sim (readString_sim hm)).cases le_rfl (Blob.Holds.first first)
  rw [Kind.value, htake] at h
  cases o with
  | none => cases h
  | some rest =>
    obtain rfl := Option.some.inj h
    exact ⟨blob, rest, hread, hholds⟩

/-- In a memory that begins with a NUL, no value is the empty one. -/
lemma Blob.Holds.cString_eq {blob : Blob} {value : Option Bytes} (h : first.Holds blob value)
    (hzero : cString first.ptr = some []) : cString blob.ptr = some (text (value.getD [])) := by
  cases value with
  | none => rw [h.absent rfl, hzero]; rfl
  | some v => exact h.present v rfl

end Values

lemma text_eq_of_cString {memory r : Bytes} (h : cString memory = some r) : text memory = r :=
  (Option.ite_none_right_eq_some.mp h).2 |> Option.some.inj

lemma cString_set_zero {result : Bytes} (h : 0 < result.length) : cString (result.set 0 0) = some [] := by
  cases result with
  | nil => exact absurd h (Nat.lt_irrefl 0)
  | cons byte result => exact cString_zero result

lemma cString_clear {blob : Blob} (h : 0 < blob.size) : cString blob.clear.ptr = some [] := by
  obtain ⟨size, hsize⟩ := Nat.exists_eq_succ_of_ne_zero h.ne'
  rw [Blob.clear, hsize, List.replicate_succ]
  exact cString_zero _

/-! ### The handlers by their cases -/

def Kind.start : Kind → Blob → Blob
  | .smartContract, blob => blob
  | .stateVariable, blob => blob.clear

section Cases

variable {malloc : Malloc} {callback : Bool} {returned start blob : Blob} {kind : Kind} {m rest : Bytes}

lemma handle_of_noMemory (h : returnMemory malloc callback returned m = none) :
    handle kind malloc callback returned (.message m) = ⟨false, returned.ptr, none⟩ := by
  cases kind with
  | smartContract => simp only [handle, handleQueryResponse, h]
  | stateVariable => simp only [handle, handleQueryStateVarResponse, h]

lemma handle_of_undecoded (h : returnMemory malloc callback returned m = some start)
    (hdecode : kind.decode readString (kind.start start) m = (blob, none)) :
    handle kind malloc callback returned (.message m) = ⟨false, blob.ptr, none⟩ := by
  cases kind with
  | smartContract =>
    have hdecode : decodeSingleBytes readString start m = (blob, none) := hdecode
    simp only [handle, handleQueryResponse, h, hdecode]
  | stateVariable =>
    have hdecode : decodeStateQueryProof readString start.clear m = (blob, none) := hdecode
    simp only [handle, handleQueryStateVarResponse, h, hdecode]

lemma handleQueryResponse_of_decoded (h : returnMemory malloc callback returned m = some start)
    (hdecode : Kind.smartContract.decode readString start m = (blob, some rest)) :
    handleQueryResponse malloc callback returned m =
      ⟨true, blob.ptr, if callback then some (true, blob.ptr) else none⟩ := by
  have hdecode : decodeSingleBytes readString start m = (blob, some rest) := hdecode
  simp only [handleQueryResponse, h, hdecode]

lemma handleQueryStateVarResponse_of_decoded (h : returnMemory malloc callback returned m = some start)
    (hdecode : Kind.stateVariable.decode readString start.clear m = (blob, some rest)) :
    handleQueryStateVarResponse malloc callback returned m =
      if text blob.ptr = [] then
        if callback then ⟨true, blob.ptr, some (false, noStateVariableText ++ [0])⟩
        else ⟨true, copyString blob.ptr noStateVariableText, none⟩
      else ⟨true, blob.ptr, if callback then some (true, blob.ptr) else none⟩ := by
  have hdecode : decodeStateQueryProof readString start.clear m = (blob, some rest) := hdecode
  simp only [handleQueryStateVarResponse, h, hdecode, text_eq_nil_iff]
  rw [List.headD_eq_head?_getD]
  by_cases hzero : blob.ptr.head?.getD 0 = 0
  · cases callback <;> simp [hzero]
  · cases callback <;> simp [hzero]

end Cases

/-! ### The answers -/

/-- The waiting call returns, with the text in its buffer, what the callback is invoked with, with the
text in a memory that a NUL ends. -/
def Agree (sync : Bool × Bytes) (async : Option (Bool × Bytes)) : Prop :=
  ∀ b r, sync.1 = b ∧ cString sync.2 = some r ↔ ∃ memory, async = some (b, memory) ∧ cString memory = some r

lemma agree_iff {b : Bool} {memory r : Bytes} {async : Option (Bool × Bytes)}
    (h : cString memory = some r) :
    Agree (b, memory) async ↔ ∃ memory', async = some (b, memory') ∧ cString memory' = some r := by
  refine ⟨fun hagree => (hagree b r).mp ⟨rfl, h⟩, ?_⟩
  rintro ⟨memory', rfl, hr⟩ b' r'
  constructor
  · rintro ⟨rfl, hr'⟩
    obtain rfl := Option.some.inj (h.symm.trans hr')
    exact ⟨memory', rfl, hr⟩
  · rintro ⟨memory'', heq, hr''⟩
    obtain ⟨rfl, rfl⟩ := Prod.mk.inj (Option.some.inj heq)
    exact ⟨rfl, h.trans (hr.symm.trans hr'')⟩

lemma not_agree_none {b : Bool} {memory r : Bytes} (h : cString memory = some r) :
    ¬ Agree (b, memory) none := by
  rw [agree_iff h]
  rintro ⟨memory', heq, -⟩
  cases heq

/-- What is returned for the value of a state variable that has none. -/
def variableText (value : Option Bytes) : Bytes :=
  if text (value.getD []) = [] then noStateVariableText else text (value.getD [])

lemma returnMemory_sync (malloc : Malloc) (returned : Blob) (m : Bytes) :
    returnMemory malloc false returned m = some returned := rfl

section Answers

variable {malloc : Malloc} {result m : Bytes} {value : Option Bytes} {kind : Kind}

def resultBlob (result : Bytes) : Blob := ⟨result.set 0 0, result.length⟩

lemma cString_start_result (kind : Kind) (h : 0 < result.length) :
    cString (kind.start (resultBlob result)).ptr = some [] := by
  cases kind with
  | smartContract => exact cString_set_zero h
  | stateVariable => exact cString_clear h

lemma start_size (kind : Kind) (blob : Blob) : (kind.start blob).size = blob.size := by
  cases kind <;> rfl

/-- A query that waits returns false when the message does not decode; its buffer holds a text. -/
lemma syncQuery_of_none (malloc : Malloc) (hm : m.length < result.length) (h : kind.value m = none) :
    ∃ memory r, syncQuery kind malloc result (.message m) = (false, memory) ∧ cString memory = some r := by
  have hsize : m.length ≤ (kind.start (resultBlob result)).size := (start_size kind _).symm ▸ hm.le
  obtain ⟨blob, value, hdecode, hholds⟩ := Kind.decode_of_none _ hsize h
  refine ⟨blob.ptr, _, ?_, hholds.cString_eq (cString_start_result kind (Nat.zero_lt_of_lt hm))⟩
  have hhandle := handle_of_undecoded (returnMemory_sync malloc (resultBlob result) m) hdecode
  exact congrArg (fun handled : Handled => (handled.success, handled.result)) hhandle

lemma syncQuery_smartContract (malloc : Malloc) (hm : m.length < result.length)
    (h : Kind.smartContract.value m = some value) :
    ∃ memory, syncQuery .smartContract malloc result (.message m) = (true, memory) ∧
      cString memory = some (text (value.getD [])) := by
  obtain ⟨blob, rest, hdecode, hholds⟩ := Kind.decode_of_some (resultBlob result) hm.le h
  have hstart := cString_start_result .smartContract (Nat.zero_lt_of_lt hm)
  have hhandle := handleQueryResponse_of_decoded (returnMemory_sync malloc (resultBlob result) m) hdecode
  exact ⟨blob.ptr, congrArg (fun handled : Handled => (handled.success, handled.result)) hhandle,
    hholds.cString_eq hstart⟩

/-- The waiting call does not tell a variable without a value from one whose value is that text. -/
lemma syncQuery_stateVariable (malloc : Malloc) (hm : m.length < result.length)
    (h : Kind.stateVariable.value m = some value) :
    ∃ memory, syncQuery .stateVariable malloc result (.message m) = (true, memory) ∧
      cString memory = some (variableText value) := by
  have hpos : 0 < result.length := Nat.zero_lt_of_lt hm
  obtain ⟨blob, rest, hdecode, hholds⟩ :=
    Kind.decode_of_some (resultBlob result).clear hm.le h
  have hstring := hholds.cString_eq (cString_start_result .stateVariable hpos)
  have htext := text_eq_of_cString hstring
  have hhandle := handleQueryStateVarResponse_of_decoded
    (returnMemory_sync malloc (resultBlob result) m) hdecode
  rw [htext] at hhandle
  have hsync := congrArg (fun handled : Handled => (handled.success, handled.result)) hhandle
  unfold variableText
  by_cases hempty : text (value.getD []) = []
  · rw [if_pos hempty] at hsync ⊢
    exact ⟨_, hsync, cString_copyString _ _⟩
  · rw [if_neg hempty] at hsync ⊢
    exact ⟨_, hsync, hstring⟩

lemma returnMemory_callback {memory : Vector UInt8 (m.length + 5)} (returned : Blob)
    (h : malloc (m.length + 5) = some memory) :
    returnMemory malloc true returned m = some ⟨memory.toList, m.length + 5⟩ := by
  rw [returnMemory, if_pos rfl, h]
  rfl

lemma asyncQuery_of_noMemory (h : malloc (m.length + 5) = none) :
    asyncQuery kind malloc (.message m) = none := by
  have hmemory : returnMemory malloc true ⟨[], 0⟩ m = none := by
    rw [returnMemory, if_pos rfl, h]
    rfl
  exact congrArg Handled.invoked (handle_of_noMemory hmemory)

lemma asyncQuery_of_none (h : kind.value m = none) : asyncQuery kind malloc (.message m) = none := by
  cases hmalloc : malloc (m.length + 5) with
  | none => exact asyncQuery_of_noMemory hmalloc
  | some memory =>
    have hsize : m.length ≤ (kind.start ⟨memory.toList, m.length + 5⟩).size :=
      (start_size kind _).symm ▸ Nat.le_add_right _ _
    obtain ⟨blob, value, hdecode, -⟩ := Kind.decode_of_none _ hsize h
    exact congrArg Handled.invoked (handle_of_undecoded (returnMemory_callback _ hmalloc) hdecode)

section Allocated

variable {memory : Vector UInt8 (m.length + 5)} (hmalloc : malloc (m.length + 5) = some memory)

include hmalloc

/-- Without a value the callback gets the memory as it was allocated. -/
lemma asyncQuery_smartContract (h : Kind.smartContract.value m = some value) :
    ∃ memory', asyncQuery .smartContract malloc (.message m) = some (true, memory') ∧
      (value = none → memory' = memory.toList) ∧ ∀ v, value = some v → cString memory' = some (text v) := by
  obtain ⟨blob, rest, hdecode, hholds⟩ :=
    Kind.decode_of_some ⟨memory.toList, m.length + 5⟩ (Nat.le_add_right _ _) h
  have hhandle := handleQueryResponse_of_decoded
    (returnMemory_callback ⟨[], 0⟩ hmalloc) hdecode
  exact ⟨blob.ptr, congrArg Handled.invoked hhandle, hholds.absent, hholds.present⟩

lemma asyncQuery_stateVariable (h : Kind.stateVariable.value m = some value) :
    ∃ memory', asyncQuery .stateVariable malloc (.message m) =
      some (decide (text (value.getD []) ≠ []), memory') ∧ cString memory' = some (variableText value) := by
  obtain ⟨blob, rest, hdecode, hholds⟩ := Kind.decode_of_some
    (Blob.clear ⟨memory.toList, m.length + 5⟩) (Nat.le_add_right _ _) h
  have hstring := hholds.cString_eq (cString_clear (Nat.succ_pos _))
  have htext := text_eq_of_cString hstring
  have hhandle := handleQueryStateVarResponse_of_decoded
    (returnMemory_callback ⟨[], 0⟩ hmalloc) hdecode
  rw [htext] at hhandle
  have hasync := congrArg Handled.invoked hhandle
  unfold variableText
  by_cases hempty : text (value.getD []) = []
  · rw [if_pos hempty] at hasync ⊢
    refine ⟨_, hasync.trans ?_, cString_append_nul noStateVariableText []⟩
    rw [decide_eq_false (not_not_intro hempty)]
    rfl
  · rw [if_neg hempty] at hasync ⊢
    refine ⟨_, hasync.trans ?_, hstring⟩
    rw [decide_eq_true hempty]
    rfl

end Allocated

end Answers

/-! ### Both modes -/

/-- What the memory and the value have to be for both modes to tell the same. -/
def Kind.Told : Kind → Bytes → Option Bytes → Prop
  | .smartContract, memory, none => memory.headD 0 = 0
  | .smartContract, _, some _ => True
  | .stateVariable, _, none => False
  | .stateVariable, _, some v => text v ≠ []

/-- There is memory for a callback, the message decodes, and it has a value, which of a state variable is
not empty; a query of a contract does without one where that memory happens to begin with a NUL. -/
def Told (kind : Kind) (malloc : Malloc) : Answer → Prop
  | .error _ => True
  | .message m => ∃ memory value, malloc (m.length + 5) = some memory ∧ kind.value m = some value ∧
      kind.Told memory.toList value

lemma cString_eq_nil_iff {memory : Bytes} (h : memory ≠ []) :
    cString memory = some [] ↔ memory.headD 0 = 0 := by
  refine ⟨fun hnil => text_eq_nil_iff.mp (text_eq_of_cString hnil), fun hzero => ?_⟩
  obtain ⟨byte, rest, rfl⟩ := List.exists_cons_of_ne_nil h
  obtain rfl : byte = 0 := hzero
  exact cString_zero rest

lemma agree_error (kind : Kind) (malloc : Malloc) {result errorMsg : Bytes}
    (h : (text errorMsg).length < result.length) :
    Agree (syncQuery kind malloc result (.error errorMsg)) (asyncQuery kind malloc (.error errorMsg)) := by
  have htake : errorMsg.take (text errorMsg).length = text errorMsg :=
    (List.prefix_iff_eq_take.mp (List.takeWhile_prefix _)).symm
  have hsync : syncQuery kind malloc result (.error errorMsg) =
      (false, copyString (result.set 0 0) (text errorMsg)) := by
    simp only [syncQuery, handle, handleQueryError, if_neg (Nat.not_lt.mpr h.le), htake]
    rfl
  rw [hsync, agree_iff (cString_copyString _ _)]
  exact ⟨errorMsg ++ [0], rfl, (cString_append_nul errorMsg []).trans (congrArg some (text_text _).symm)⟩

section Message

variable {malloc : Malloc} {result m : Bytes} {value : Option Bytes}

lemma syncQuery_of_some (malloc : Malloc) {kind : Kind} (hm : m.length < result.length)
    (h : kind.value m = some value) :
    ∃ b memory r, syncQuery kind malloc result (.message m) = (b, memory) ∧ cString memory = some r := by
  cases kind with
  | smartContract =>
    obtain ⟨memory, hsync, hr⟩ := syncQuery_smartContract malloc hm h
    exact ⟨_, memory, _, hsync, hr⟩
  | stateVariable =>
    obtain ⟨memory, hsync, hr⟩ := syncQuery_stateVariable malloc hm h
    exact ⟨_, memory, _, hsync, hr⟩

variable {memory : Vector UInt8 (m.length + 5)}

lemma agree_smartContract (hm : m.length < result.length) (hmalloc : malloc (m.length + 5) = some memory)
    (h : Kind.smartContract.value m = some value) :
    Agree (syncQuery .smartContract malloc result (.message m))
      (asyncQuery .smartContract malloc (.message m)) ↔ Kind.smartContract.Told memory.toList value := by
  obtain ⟨buffer, hsync, hbuffer⟩ := syncQuery_smartContract malloc hm h
  obtain ⟨memory', hasync, habsent, hpresent⟩ := asyncQuery_smartContract hmalloc h
  rw [hsync, agree_iff hbuffer, hasync]
  have hsame : (∃ shown, some (true, memory') = some (true, shown) ∧
      cString shown = some (text (value.getD []))) ↔ cString memory' = some (text (value.getD [])) := by
    refine ⟨?_, fun hshown => ⟨memory', rfl, hshown⟩⟩
    rintro ⟨shown, heq, hshown⟩
    obtain ⟨-, rfl⟩ := Prod.mk.inj (Option.some.inj heq)
    exact hshown
  rw [hsame]
  cases value with
  | none =>
    rw [habsent rfl]
    have hne : memory.toList ≠ [] := by
      have hlen := memory.length_toList
      exact List.ne_nil_of_length_pos (by omega)
    exact cString_eq_nil_iff hne
  | some v => exact iff_of_true (hpresent v rfl) trivial

lemma agree_stateVariable (hm : m.length < result.length) (hmalloc : malloc (m.length + 5) = some memory)
    (h : Kind.stateVariable.value m = some value) :
    Agree (syncQuery .stateVariable malloc result (.message m))
      (asyncQuery .stateVariable malloc (.message m)) ↔ Kind.stateVariable.Told memory.toList value := by
  obtain ⟨buffer, hsync, hbuffer⟩ := syncQuery_stateVariable malloc hm h
  obtain ⟨memory', hasync, hmemory'⟩ := asyncQuery_stateVariable hmalloc h
  rw [hsync, agree_iff hbuffer, hasync]
  have htold : Kind.stateVariable.Told memory.toList value ↔ text (value.getD []) ≠ [] := by
    cases value with
    | none => exact iff_of_false id fun hne => hne rfl
    | some v => exact Iff.rfl
  rw [htold]
  constructor
  · rintro ⟨shown, heq, -⟩
    exact of_decide_eq_true (Prod.mk.inj (Option.some.inj heq)).1
  · intro hne
    exact ⟨memory', by rw [decide_eq_true hne], hmemory'⟩

end Message

/-- **The two modes of a query agree on an answer just when it is an error, or a message that decodes, with
memory for it and a value that is not empty in a state variable; otherwise the callback is not invoked, or
with another success or another memory.** -/
theorem modes_agree (kind : Kind) (malloc : Malloc) (result : Bytes) (answer : Answer)
    (h : answer.length < result.length) :
    Agree (syncQuery kind malloc result answer) (asyncQuery kind malloc answer) ↔
      Told kind malloc answer := by
  cases answer with
  | error errorMsg => exact iff_of_true (agree_error kind malloc h) trivial
  | message m =>
    have hm : m.length < result.length := h
    cases hvalue : kind.value m with
    | none =>
      obtain ⟨memory, r, hsync, hr⟩ := syncQuery_of_none malloc hm hvalue
      rw [hsync, asyncQuery_of_none hvalue]
      refine iff_of_false (not_agree_none hr) ?_
      rintro ⟨memory, value, -, hsome, -⟩
      cases hvalue.symm.trans hsome
    | some value =>
      cases hmalloc : malloc (m.length + 5) with
      | none =>
        obtain ⟨b, memory, r, hsync, hr⟩ := syncQuery_of_some malloc hm hvalue
        rw [hsync, asyncQuery_of_noMemory hmalloc]
        refine iff_of_false (not_agree_none hr) ?_
        rintro ⟨memory', value', hsome, -⟩
        cases hmalloc.symm.trans hsome
      | some memory =>
        have htold : Told kind malloc (.message m) ↔ kind.Told memory.toList value := by
          refine ⟨?_, fun htold => ⟨memory, value, hmalloc, hvalue, htold⟩⟩
          rintro ⟨memory', value', hmemory', hvalue', htold⟩
          obtain rfl := Option.some.inj (hmalloc.symm.trans hmemory')
          obtain rfl := Option.some.inj (hvalue.symm.trans hvalue')
          exact htold
        rw [htold]
        cases kind with
        | smartContract => exact agree_smartContract hm hmalloc hvalue
        | stateVariable => exact agree_stateVariable hm hmalloc hvalue

def sampleMalloc : Malloc := fun size => some (Vector.replicate size 1)

theorem modes_agree_sevenAndTooLow :
    Agree (syncQuery .smartContract sampleMalloc (List.replicate 8 1) (.message queryAnswer))
        (asyncQuery .smartContract sampleMalloc (.message queryAnswer)) ∧
      Agree (syncQuery .stateVariable sampleMalloc (List.replicate 8 1) (.error [0x6c, 0x6f, 0x77]))
        (asyncQuery .stateVariable sampleMalloc (.error [0x6c, 0x6f, 0x77])) :=
  ⟨(modes_agree .smartContract sampleMalloc (List.replicate 8 1) (.message queryAnswer) (by decide)).mpr
      ⟨Vector.replicate 8 1, some [0x37], rfl, rfl, trivial⟩,
    (modes_agree .stateVariable sampleMalloc (List.replicate 8 1) (.error [0x6c, 0x6f, 0x77])
      (by decide)).mpr trivial⟩

/-- **A proof without a value**: the waiting call returns true, the callback is invoked with false, and
both get the same text. -/
theorem absent_variable_told_apart :
    syncQuery .stateVariable sampleMalloc (List.replicate 30 1) (.message []) =
        (true, noStateVariableText ++ [0]) ∧
      asyncQuery .stateVariable sampleMalloc (.message []) = some (false, noStateVariableText ++ [0]) ∧
      ¬ Agree (syncQuery .stateVariable sampleMalloc (List.replicate 30 1) (.message []))
        (asyncQuery .stateVariable sampleMalloc (.message [])) := by
  have hsync : syncQuery .stateVariable sampleMalloc (List.replicate 30 1) (.message []) =
      (true, noStateVariableText ++ [0]) := by decide
  have hasync : asyncQuery .stateVariable sampleMalloc (.message []) =
      some (false, noStateVariableText ++ [0]) := by decide
  refine ⟨hsync, hasync, ?_⟩
  rw [hsync, hasync, agree_iff (cString_append_nul noStateVariableText [])]
  rintro ⟨memory, heq, -⟩
  cases heq

/-! ### The requests of an instance -/

def Kind.handler : Kind → ResponseHandler
  | .smartContract => .query
  | .stateVariable => .queryStateVar

/-- The text that a message leaves in a buffer of that size. -/
def Kind.read (kind : Kind) (size : ℕ) (m : Bytes) : Option Bytes :=
  match kind.decode readString (kind.start ⟨List.replicate size 0, size⟩) m with
  | (_, none) => none
  | (blob, some _) => some (text blob.ptr)

/-- The environment decodes queries as the handlers do, and allocates what `malloc` does. -/
structure Reads (E : Env) (malloc : Malloc) : Prop where
  query : E.codec.query = Kind.read .smartContract
  queryStateVar : E.codec.queryStateVar = Kind.read .stateVariable
  malloc : ∀ size, E.malloc size = (malloc size).isSome

/-- Whether a message can be read depends on the size of the memory only. -/
lemma Kind.read_isSome (kind : Kind) (blob : Blob) (m : Bytes) :
    (kind.read blob.size m).isSome = (kind.decode readString (kind.start blob) m).2.isSome := by
  have hread : Callback.Sim (fun b b' : Blob => b.size = b'.size) m.length readString readString := by
    intro b b' stream _ hsize
    unfold readString
    rw [hsize]
    split
    · exact ⟨hsize, rfl, fun rest hrest => by cases hrest⟩
    · refine ⟨rfl, rfl, fun rest hrest => ?_⟩
      obtain rfl := Option.some.inj hrest
      exact Nat.zero_le _
  have hsizes : (kind.start ⟨List.replicate blob.size 0, blob.size⟩).size = (kind.start blob).size := by
    rw [start_size, start_size]
  obtain ⟨b, b', o, hb, hb', -, -⟩ := (kind.decode_sim hread).cases le_rfl hsizes
  rw [Kind.read, hb, hb']
  cases o <;> rfl

/-- A handler succeeds with the memory for the text when the message decodes. -/
lemma handle_success (kind : Kind) (malloc : Malloc) (callback : Bool) (returned : Blob) (m : Bytes) :
    (handle kind malloc callback returned (.message m)).success =
      ((returnMemory malloc callback returned m).bind fun start =>
        (kind.decode readString (kind.start start) m).2).isSome := by
  cases hmemory : returnMemory malloc callback returned m with
  | none => rw [handle_of_noMemory hmemory]; rfl
  | some start =>
    rw [Option.bind_some]
    rcases hdecode : kind.decode readString (kind.start start) m with ⟨blob, _ | rest⟩
    · rw [handle_of_undecoded hmemory hdecode]
      rfl
    · cases kind with
      | smartContract =>
        rw [handle, handleQueryResponse_of_decoded hmemory hdecode]
        rfl
      | stateVariable =>
        rw [handle, handleQueryStateVarResponse_of_decoded hmemory hdecode]
        cases callback <;> split <;> rfl

lemma returnMemory_length {malloc : Malloc} {returned start : Blob} {m : Bytes}
    (h : returnMemory malloc true returned m = some start) : start.ptr.length = start.size := by
  obtain ⟨memory, -, rfl⟩ := Option.map_eq_some_iff.mp h
  exact memory.length_toList

lemma clear_eq {blob : Blob} (h : blob.ptr.length = blob.size) :
    blob.clear = Blob.clear ⟨List.replicate blob.size 0, blob.size⟩ := by
  unfold Blob.clear
  rw [List.drop_eq_nil_of_le h.le, List.drop_eq_nil_of_le (List.length_replicate ..).le]

/-- What the callback of a request is told of a text. -/
def Kind.outcome : Kind → Bytes → Outcome
  | .smartContract, t => .query true t
  | .stateVariable, t => .query (t ≠ []) (if t ≠ [] then t else noStateVariableText)

section Requests

variable {E : Env} {malloc : Malloc} (hE : Reads E malloc) {w : World} {r : ReqId} {kind : Kind}

include hE

lemma returnMemory_request (memory m : Bytes) :
    (returnMemory malloc (w.heap r).callback.isSome ⟨memory, (w.heap r).returnSize⟩ m).map Blob.size =
      if queryBuffer E w r m then some (queryBufferSize w r m) else none := by
  unfold returnMemory queryBuffer queryBufferSize
  cases (w.heap r).callback with
  | none => rfl
  | some cb =>
    rw [hE.malloc]
    cases malloc (m.length + 5) <;> rfl

lemma processResponse_query (hr : (w.heap r).processResponse = kind.handler) (m : Bytes) :
    processResponse E w r m =
      match (if queryBuffer E w r m then some (queryBufferSize w r m) else none).bind (kind.read · m) with
      | none => (false, w)
      | some t => (true, w.invoke r (kind.outcome t)) := by
  unfold processResponse
  rw [hr]
  cases kind with
  | smartContract =>
    simp only [Kind.handler, Libaergo.handleQueryResponse, hE.query]
    cases queryBuffer E w r m with
    | false => rfl
    | true =>
      cases hread : Kind.read .smartContract (queryBufferSize w r m) m <;> simp [hread, Kind.outcome]
  | stateVariable =>
    simp only [Kind.handler, Libaergo.handleQueryStateVarResponse, hE.queryStateVar]
    cases queryBuffer E w r m with
    | false => rfl
    | true =>
      cases hread : Kind.read .stateVariable (queryBufferSize w r m) m <;> simp [hread, Kind.outcome]

/-- **The requests of an instance succeed as the handlers do**, whatever is in the result buffer. -/
theorem processResponse_success (hr : (w.heap r).processResponse = kind.handler) (memory m : Bytes) :
    (processResponse E w r m).1 =
      (handle kind malloc (w.heap r).callback.isSome ⟨memory, (w.heap r).returnSize⟩
        (.message m)).success := by
  rw [processResponse_query hE hr, handle_success, ← returnMemory_request hE memory m]
  cases returnMemory malloc (w.heap r).callback.isSome ⟨memory, (w.heap r).returnSize⟩ m with
  | none => rfl
  | some start =>
    have hread := kind.read_isSome start m
    rw [Option.map_some, Option.bind_some, Option.bind_some, ← hread]
    cases kind.read start.size m <;> rfl

/-- **The callback of a request is invoked when the handler invokes it, and with the same success.** -/
theorem processResponse_log (hr : (w.heap r).processResponse = kind.handler) {cb : ℕ}
    (hcb : (w.heap r).callback = some cb) (memory m : Bytes) :
    ∃ shown : Bytes, (processResponse E w r m).2.log =
      ((handle kind malloc true ⟨memory, (w.heap r).returnSize⟩ (.message m)).invoked.map fun told =>
        ⟨(w.heap r).parent.getD r, cb, (w.heap r).arg, .query told.1 shown⟩).toList ++ w.log := by
  have hmemory := returnMemory_request hE (w := w) (r := r) memory m
  rw [hcb, Option.isSome_some] at hmemory
  rw [processResponse_query hE hr, ← hmemory]
  cases hreturned : returnMemory malloc true ⟨memory, (w.heap r).returnSize⟩ m with
  | none =>
    rw [handle_of_noMemory hreturned]
    exact ⟨[], rfl⟩
  | some start =>
    have hread := kind.read_isSome start m
    rw [Option.map_some, Option.bind_some]
    rcases hdecode : kind.decode readString (kind.start start) m with ⟨blob, _ | rest⟩
    · rw [hdecode] at hread
      rw [handle_of_undecoded hreturned hdecode]
      cases hnone : kind.read start.size m with
      | none => exact ⟨[], rfl⟩
      | some t => rw [hnone] at hread; cases hread
    · rw [hdecode] at hread
      obtain ⟨t, ht⟩ := Option.isSome_iff_exists.mp hread
      rw [ht]
      cases kind with
      | smartContract =>
        rw [handle, handleQueryResponse_of_decoded hreturned hdecode]
        exact ⟨t, by simp [World.invoke, hcb, Kind.outcome]⟩
      | stateVariable =>
        rw [handle, handleQueryStateVarResponse_of_decoded hreturned hdecode]
        -- the memory was cleared, as that of the buffer
        have htext : text blob.ptr = t := by
          have hclear := clear_eq (returnMemory_length hreturned)
          have hsame : Kind.stateVariable.decode readString start.clear m = (blob, some rest) := hdecode
          rw [hclear] at hsame
          rw [Kind.read, Kind.start, hsame] at ht
          exact Option.some.inj ht
        rw [htext]
        refine ⟨if t ≠ [] then t else noStateVariableText, ?_⟩
        by_cases hempty : t = []
        · simp [World.invoke, hcb, Kind.outcome, hempty]
        · simp [World.invoke, hcb, Kind.outcome, hempty]

end Requests

end Libaergo.Query
