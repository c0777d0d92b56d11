import Libaergo.Queries

/-!
# The result buffer of a query (`aergo.c`)

A query that waits writes to the buffer of its caller through `read_string`, which puts a null byte behind
the bytes that it has checked, through `handle_query_error`, and through a `strcpy` of a fixed text.  The
memory of the model grows where it is written past its end, so the writes are inside just when it has its
length in the end.  The decoder is compared with one that collects the values whatever their length.
-/

namespace Libaergo.Query

open Lib Nanopb

/-! ### The values in a message -/

/-- A callback that keeps all values. -/
def collect : Callback (List Bytes) := fun values stream => (values ++ [stream], some [])

/-- The values in a message, in their order, up to where it does not decode. -/
def Kind.values (kind : Kind) (m : Bytes) : List Bytes := (kind.decode collect [] m).1

/-- The memory holds the values that were read, of which all have passed the check. -/
structure Blob.Read (first blob : Blob) (values : List Bytes) : Prop where
  size : blob.size = first.size
  ptr : blob.ptr = values.foldl copyString first.ptr
  fit : ∀ v ∈ values, v.length ≤ first.size

/-- A value behind those that were read has not passed it. -/
def Blob.Stopped (first blob : Blob) (values : List Bytes) : Prop :=
  ∃ read v behind, values = read ++ v :: behind ∧ first.Read blob read ∧ first.size < v.length

section Values

variable {first : Blob} {values : List Bytes} {n : ℕ}

lemma copyString_length (memory s : Bytes) :
    (copyString memory s).length = max memory.length (s.length + 1) := by
  unfold copyString
  rw [List.length_append, List.length_cons, List.length_drop]
  omega

lemma length_le_foldl_copyString (values : List Bytes) (memory : Bytes) :
    memory.length ≤ (values.foldl copyString memory).length := by
  induction values generalizing memory with
  | nil => exact le_rfl
  | cons v values ih =>
    refine le_trans ?_ (ih (copyString memory v))
    rw [copyString_length]
    exact le_max_left _ _

/-- The memory does not grow just when all texts leave room for their null byte. -/
lemma foldl_copyString_length {memory : Bytes} :
    (values.foldl copyString memory).length = memory.length ↔ ∀ v ∈ values, v.length < memory.length := by
  induction values generalizing memory with
  | nil => exact iff_of_true rfl fun v hv => absurd hv List.not_mem_nil
  | cons v values ih =>
    rw [List.foldl_cons, List.forall_mem_cons]
    have hlen := copyString_length memory v
    constructor
    · intro h
      have hle := length_le_foldl_copyString values (copyString memory v)
      have hsame : (copyString memory v).length = memory.length := by omega
      refine ⟨by omega, ?_⟩
      rw [← hsame] at h ⊢
      exact ih.mp h
    · rintro ⟨hv, hvalues⟩
      have hsame : (copyString memory v).length = memory.length := by omega
      rw [← hsame] at hvalues ⊢
      exact ih.mpr hvalues

lemma cString_foldl_copyString {memory r : Bytes} (h : cString memory = some r) :
    cString (values.foldl copyString memory) = some (values.getLast?.elim r text) := by
  induction values generalizing memory r with
  | nil => exact h
  | cons v values ih =>
    rw [List.foldl_cons, ih (cString_copyString memory v), List.getLast?_cons]
    cases values.getLast? <;> rfl

lemma Blob.read_nil (blob : Blob) : blob.Read blob [] :=
  ⟨rfl, rfl, fun _ hv => absurd hv List.not_mem_nil⟩

/-- `read_string` reads what is collected, unless it does not fit. -/
lemma readString_simUnless (first : Blob) (n : ℕ) :
    Callback.SimUnless first.Read first.Stopped n readString collect := by
  intro blob values stream _ hread
  have hcheck : blob.size < stream.length ↔ first.size < stream.length := by rw [hread.size]
  unfold readString
  by_cases hlong : blob.size < stream.length
  · rw [if_pos hlong]
    refine ⟨.inr ⟨rfl, values, stream, [], rfl, hread, hcheck.mp hlong⟩, fun rest hrest => by cases hrest⟩
  · rw [if_neg hlong]
    refine ⟨.inl ⟨⟨hread.size, ?_, ?_⟩, rfl⟩, fun rest hrest => ?_⟩
    · show copyString blob.ptr stream = (values ++ [stream]).foldl copyString first.ptr
      rw [List.foldl_append, ← hread.ptr]
      rfl
    · refine List.forall_mem_append.mpr ⟨hread.fit, fun v hv => ?_⟩
      rw [List.mem_singleton.mp hv]
      exact not_lt.mp fun h => hlong (hcheck.mpr h)
    · obtain rfl := Option.some.inj hrest
      exact Nat.zero_le _

lemma collect_stays (first : Blob) : collect.Stays first.Stopped := by
  rintro blob values stream ⟨read, v, behind, rfl, hread, hlong⟩
  exact ⟨read, v, behind ++ [stream], by simp [collect], hread, hlong⟩

lemma takeValue_sim (n : ℕ) :
    Callback.Sim (fun (value : Option Bytes) (values : List Bytes) => value = values.getLast?) n takeValue
      collect := by
  intro value values stream _ _
  refine ⟨?_, rfl, fun rest hrest => ?_⟩
  · show some stream = (values ++ [stream]).getLast?
    rw [List.getLast?_concat]
  · obtain rfl := Option.some.inj hrest
    exact Nat.zero_le _

lemma Kind.decode_simUnless {σ τ : Type*} {R bad : σ → τ → Prop} {f : Callback σ} {g : Callback τ}
    (h : f.SimUnless R bad n g) (hbad : g.Stays bad) (kind : Kind) :
    Callback.SimUnless R bad n (kind.decode f) (kind.decode g) := by
  cases kind with
  | smartContract => exact pbDecode_simUnless (setCallback_simUnless h 1) (fun s => setCallback_keeps (hbad s) 1) _
  | stateVariable =>
    have hproof := pbDecode_simUnless (setCallback_simUnless h 1) (fun s => setCallback_keeps (hbad s) 1)
      contractVarProofFields
    have hkeeps : Callback.Stays bad (readContractVarProof g) := fun s =>
      pbDecode_keeps (setCallback_keeps (hbad s) 1) _
    exact pbDecode_simUnless (setCallback_simUnless hproof 2) (fun s => setCallback_keeps (hkeeps s) 2) _

lemma takeWhile_fit {read behind : List Bytes} {v : Bytes} (hfit : ∀ u ∈ read, u.length ≤ n)
    (hv : n < v.length) : (read ++ v :: behind).takeWhile (·.length ≤ n) = read := by
  rw [List.takeWhile_append_of_pos fun u hu => by simpa using hfit u hu,
    List.takeWhile_cons_of_neg (by simpa using hv), List.append_nil]

/-- **What a query reads**: the values up to the first that is too long, and it fails there. -/
lemma Kind.decode_read (kind : Kind) (first : Blob) (m : Bytes) :
    ∃ blob, kind.decode readString first m =
        (blob, if ∀ v ∈ kind.values m, v.length ≤ first.size then (kind.decode collect [] m).2 else none) ∧
      first.Read blob ((kind.values m).takeWhile (·.length ≤ first.size)) := by
  obtain ⟨blob, values, o, o', hreal, hcollect, hor, -⟩ :=
    (kind.decode_simUnless (readString_simUnless first m.length) (collect_stays first)).cases le_rfl
      (Blob.read_nil first)
  refine ⟨blob, ?_⟩
  unfold Kind.values
  rw [hreal, hcollect]
  dsimp only
  rcases hor with ⟨hread, rfl⟩ | ⟨rfl, read, v, behind, rfl, hread, hlong⟩
  · have hall : values.takeWhile (·.length ≤ first.size) = values :=
      List.takeWhile_eq_self_iff.mpr fun v hv => by simpa using hread.fit v hv
    rw [if_pos hread.fit, hall]
    exact ⟨rfl, hread⟩
  · rw [if_neg, takeWhile_fit hread.fit hlong]
    · exact ⟨rfl, hread⟩
    · intro hall
      have hle := hall v (List.mem_append_right _ List.mem_cons_self)
      exact absurd hlong (not_lt.mpr hle)

lemma Kind.value_eq (kind : Kind) (m : Bytes) :
    kind.value m = (kind.decode collect [] m).2.map fun _ => (kind.values m).getLast? := by
  obtain ⟨value, values, o, htake, hcollect, rfl, -⟩ :=
    (kind.decode_sim (takeValue_sim m.length)).cases (s := none) (t := []) le_rfl rfl
  unfold Kind.value Kind.values
  rw [htake, hcollect]
  cases o <;> rfl

end Values

/-! ### The buffer of the caller -/

/-- The text in the buffer begins the error text, or the value if the query returns true, which for a state
variable without one is an error text too. -/
def Says (kind : Kind) (answer : Answer) (success : Bool) (r : Bytes) : Prop :=
  match answer with
  | .error errorMsg => r <+: errorMsg
  | .message m => success = true → ∃ value, kind.value m = some value ∧
      (r <+: value.getD [] ∨ kind = .stateVariable ∧ r <+: noStateVariableText)

/-- **A query stays in the buffer**: it writes no byte behind it, and when it returns a null byte in it ends
a text that says what the answer does. -/
structure StaysInside (kind : Kind) (malloc : Malloc) (result : Bytes) (answer : Answer) : Prop where
  inside : (syncQuery kind malloc result answer).2.length = result.length
  ended : ∃ r, cString (syncQuery kind malloc result answer).2 = some r ∧
    Says kind answer (syncQuery kind malloc result answer).1 r

/-- An error text does not have the length of the buffer, nor has a value before the first that is longer;
and there is room for the fixed text where a proof decodes without a value, or with an empty one. -/
def FitsBuffer (kind : Kind) (resultlen : ℕ) : Answer → Prop
  | .error errorMsg => (text errorMsg).length ≠ resultlen
  | .message m =>
    (∀ v ∈ (kind.values m).takeWhile (·.length ≤ resultlen), v.length ≠ resultlen) ∧
      (kind = .stateVariable → (∀ v ∈ kind.values m, v.length ≤ resultlen) →
        ∀ value, kind.value m = some value → text (value.getD []) = [] →
          noStateVariableText.length < resultlen)

section Buffer

variable {kind : Kind} {malloc : Malloc} {result m errorMsg : Bytes}

lemma text_initial (s : Bytes) : text s <+: s := List.takeWhile_prefix _

lemma syncQuery_error (kind : Kind) (malloc : Malloc) (result errorMsg : Bytes) :
    syncQuery kind malloc result (.error errorMsg) =
      (false, copyString (result.set 0 0) (errorMsg.take
        (if result.length < (text errorMsg).length then result.length - 1 else (text errorMsg).length))) := by
  simp only [syncQuery, handle, handleQueryError]
  rfl

lemma staysInside_error (hpos : 0 < result.length) :
    StaysInside kind malloc result (.error errorMsg) ↔ (text errorMsg).length ≠ result.length := by
  have hle := (text_initial errorMsg).length_le
  have hended : ∃ r, cString (syncQuery kind malloc result (.error errorMsg)).2 = some r ∧
      Says kind (.error errorMsg) (syncQuery kind malloc result (.error errorMsg)).1 r := by
    rw [syncQuery_error]
    exact ⟨_, cString_copyString _ _, (text_initial _).trans (List.take_prefix _ _)⟩
  have hlen : (syncQuery kind malloc result (.error errorMsg)).2.length = result.length ↔
      (text errorMsg).length ≠ result.length := by
    rw [syncQuery_error]
    dsimp only
    rw [copyString_length, List.length_set, List.length_take]
    split <;> omega
  exact ⟨fun h => hlen.mp h.inside, fun h => ⟨hlen.mpr h, hended⟩⟩

/-- The memory that the decoder starts with is that of the caller, and begins with a null byte. -/
lemma start_length (kind : Kind) (result : Bytes) : (kind.start (resultBlob result)).ptr.length = result.length := by
  cases kind with
  | smartContract => exact List.length_set
  | stateVariable =>
    show (List.replicate result.length 0 ++ (result.set 0 0).drop result.length).length = result.length
    rw [List.length_append, List.length_replicate, List.length_drop, List.length_set]
    omega

/-- The values that are read are inside just when none has the length of the buffer. -/
lemma read_inside {blob : Blob}
    (h : (kind.start (resultBlob result)).Read blob ((kind.values m).takeWhile (·.length ≤ result.length))) :
    blob.ptr.length = result.length ↔
      ∀ v ∈ (kind.values m).takeWhile (·.length ≤ result.length), v.length ≠ result.length := by
  rw [h.ptr, ← start_length kind result, foldl_copyString_length, start_length]
  refine forall_congr' fun v => forall_congr' fun hv => ?_
  have hle : v.length ≤ result.length := by simpa using List.mem_takeWhile_imp hv
  omega

/-- **A query with a message**, by what the decoder leaves. -/
lemma syncQuery_message (kind : Kind) (malloc : Malloc) (hpos : 0 < result.length) (m : Bytes) :
    ∃ blob, (kind.start (resultBlob result)).Read blob
        ((kind.values m).takeWhile (·.length ≤ result.length)) ∧
      ((¬ (∀ v ∈ kind.values m, v.length ≤ result.length) ∨ kind.value m = none) ∧
          syncQuery kind malloc result (.message m) = (false, blob.ptr) ∨
        (∀ v ∈ kind.values m, v.length ≤ result.length) ∧ ∃ value, kind.value m = some value ∧
          cString blob.ptr = some (text (value.getD [])) ∧
          syncQuery kind malloc result (.message m) =
            (true, if kind = .stateVariable ∧ text (value.getD []) = []
              then copyString blob.ptr noStateVariableText else blob.ptr)) := by
  obtain ⟨blob, hdecode, hread⟩ := kind.decode_read (kind.start (resultBlob result)) m
  have hsize : (kind.start (resultBlob result)).size = result.length := start_size kind _
  rw [hsize] at hdecode hread
  refine ⟨blob, hread, ?_⟩
  have hmemory := returnMemory_sync malloc (resultBlob result) m
  have hvalue := kind.value_eq m
  generalize (kind.decode collect [] m).2 = o at hdecode hvalue
  by_cases hfit : ∀ v ∈ kind.values m, v.length ≤ result.length
  · rw [if_pos hfit] at hdecode
    cases o with
    | none =>
      have hhandle := handle_of_undecoded hmemory hdecode
      exact .inl ⟨.inr hvalue,
        congrArg (fun handled : Handled => (handled.success, handled.result)) hhandle⟩
    | some rest =>
      have hall : (kind.values m).takeWhile (·.length ≤ result.length) = kind.values m :=
        List.takeWhile_eq_self_iff.mpr fun v hv => by simpa using hfit v hv
      have hstring : cString blob.ptr = some (text ((kind.values m).getLast?.getD [])) := by
        rw [hread.ptr, hall, cString_foldl_copyString (cString_start_result kind hpos)]
        cases (kind.values m).getLast? <;> rfl
      refine .inr ⟨hfit, (kind.values m).getLast?, hvalue, hstring, ?_⟩
      cases kind with
      | smartContract =>
        have hhandle := handleQueryResponse_of_decoded hmemory hdecode
        exact congrArg (fun handled : Handled => (handled.success, handled.result)) hhandle
      | stateVariable =>
        have hhandle := handleQueryStateVarResponse_of_decoded hmemory hdecode
        rw [text_eq_of_cString hstring] at hhandle
        by_cases hempty : text ((Kind.stateVariable.values m).getLast?.getD []) = []
        · rw [if_pos hempty, if_neg Bool.false_ne_true] at hhandle
          rw [if_pos ⟨rfl, hempty⟩]
          exact congrArg (fun handled : Handled => (handled.success, handled.result)) hhandle
        · rw [if_neg hempty, if_neg Bool.false_ne_true] at hhandle
          rw [if_neg fun h => hempty h.2]
          exact congrArg (fun handled : Handled => (handled.success, handled.result)) hhandle
  · rw [if_neg hfit] at hdecode
    have hhandle := handle_of_undecoded hmemory hdecode
    exact .inl ⟨.inl hfit, congrArg (fun handled : Handled => (handled.success, handled.result)) hhandle⟩

lemma staysInside_message (hpos : 0 < result.length) :
    StaysInside kind malloc result (.message m) ↔ FitsBuffer kind result.length (.message m) := by
  obtain ⟨blob, hread, ⟨hfail, hsync⟩ | ⟨hfit, value, hvalue, hstring, hsync⟩⟩ :=
    syncQuery_message kind malloc hpos m
  · -- the call fails, with what was read before
    have hended : ∃ r, cString blob.ptr = some r ∧ Says kind (.message m) false r := by
      rw [hread.ptr, cString_foldl_copyString (cString_start_result kind hpos)]
      exact ⟨_, rfl, fun h => by cases h⟩
    have hvariable : kind = .stateVariable → (∀ v ∈ kind.values m, v.length ≤ result.length) →
        ∀ value, kind.value m = some value → text (value.getD []) = [] →
          noStateVariableText.length < result.length := by
      intro _ hfit value hvalue _
      rcases hfail with h | h
      · exact absurd hfit h
      · cases h.symm.trans hvalue
    have hinside := read_inside hread
    constructor
    · rintro ⟨h, -⟩
      rw [hsync] at h
      exact ⟨hinside.mp h, hvariable⟩
    · rintro ⟨h, -⟩
      refine ⟨?_, ?_⟩
      · rw [hsync]
        exact hinside.mpr h
      · rw [hsync]
        exact hended
  · have hinside := read_inside hread
    by_cases hempty : kind = .stateVariable ∧ text (value.getD []) = []
    · rw [if_pos hempty] at hsync
      obtain ⟨rfl, hempty⟩ := hempty
      have hle : result.length ≤ blob.ptr.length := by
        rw [hread.ptr, ← start_length .stateVariable result]
        exact length_le_foldl_copyString _ _
      have hlen : (copyString blob.ptr noStateVariableText).length = result.length ↔
          blob.ptr.length = result.length ∧ noStateVariableText.length < result.length := by
        rw [copyString_length]
        omega
      constructor
      · rintro ⟨h, -⟩
        rw [hsync] at h
        obtain ⟨hptr, hroom⟩ := hlen.mp h
        exact ⟨hinside.mp hptr, fun _ _ _ _ _ => hroom⟩
      · rintro ⟨h, hroom⟩
        refine ⟨?_, ?_⟩
        · rw [hsync]
          exact hlen.mpr ⟨hinside.mpr h, hroom rfl hfit value hvalue hempty⟩
        · rw [hsync]
          exact ⟨_, cString_copyString _ _, fun _ => ⟨value, hvalue, .inr ⟨rfl, text_initial _⟩⟩⟩
    · rw [if_neg hempty] at hsync
      constructor
      · rintro ⟨h, -⟩
        rw [hsync] at h
        refine ⟨hinside.mp h, fun hkind _ value' hvalue' hempty' => ?_⟩
        obtain rfl := Option.some.inj (hvalue.symm.trans hvalue')
        exact absurd ⟨hkind, hempty'⟩ hempty
      · rintro ⟨h, -⟩
        refine ⟨?_, ?_⟩
        · rw [hsync]
          exact hinside.mpr h
        · rw [hsync]
          exact ⟨_, hstring, fun _ => ⟨value, hvalue, .inl (text_initial _)⟩⟩

end Buffer

/-- **The answers for which a query stays in the buffer of its caller.** -/
theorem staysInside_iff (kind : Kind) (malloc : Malloc) (result : Bytes) (answer : Answer)
    (hpos : 0 < result.length) :
    StaysInside kind malloc result answer ↔ FitsBuffer kind result.length answer := by
  cases answer with
  | error errorMsg => exact staysInside_error hpos
  | message m => exact staysInside_message hpos

/-- A buffer of eight bytes has room for an error text of seven, and not of eight. -/
theorem staysInside_iff_eight :
    StaysInside .smartContract sampleMalloc (List.replicate 8 1) (.error (List.replicate 7 0x61)) ∧
      ¬ StaysInside .smartContract sampleMalloc (List.replicate 8 1) (.error (List.replicate 8 0x61)) :=
  ⟨(staysInside_iff .smartContract sampleMalloc (List.replicate 8 1) _ (by decide)).mpr
      (show (text (List.replicate 7 0x61)).length ≠ 8 by decide),
    fun h => (staysInside_iff .smartContract sampleMalloc (List.replicate 8 1) _ (by decide)).mp h
      (show (text (List.replicate 8 0x61)).length = 8 by decide)⟩

/-- **An answer as long as the buffer**: the null byte of a value, or of an error text, is written behind
it, and so is the fixed text for a variable without a value. -/
theorem exact_answer_overruns :
    syncQuery .smartContract sampleMalloc (List.replicate 3 1) (.message [0x0a, 3, 0x61, 0x62, 0x63]) =
        (true, [0x61, 0x62, 0x63, 0]) ∧
      ¬ StaysInside .smartContract sampleMalloc (List.replicate 3 1) (.message [0x0a, 3, 0x61, 0x62, 0x63]) ∧
      ¬ StaysInside .smartContract sampleMalloc (List.replicate 3 1) (.error [0x61, 0x62, 0x63]) ∧
      ¬ StaysInside .stateVariable sampleMalloc (List.replicate 3 1) (.message []) := by
  have hvalue : syncQuery .smartContract sampleMalloc (List.replicate 3 1)
      (.message [0x0a, 3, 0x61, 0x62, 0x63]) = (true, [0x61, 0x62, 0x63, 0]) := by decide
  have herror : (syncQuery .smartContract sampleMalloc (List.replicate 3 1)
      (.error [0x61, 0x62, 0x63])).2.length = 4 := by decide
  have hvariable : (syncQuery .stateVariable sampleMalloc (List.replicate 3 1) (.message [])).2.length = 30 := by
    decide
  refine ⟨hvalue, fun h => ?_, fun h => ?_, fun h => ?_⟩
  · have hlen := h.inside
    rw [hvalue] at hlen
    exact absurd hlen (by decide)
  · have hlen := h.inside
    rw [herror] at hlen
    exact absurd hlen (by decide)
  · have hlen := h.inside
    rw [hvariable] at hlen
    exact absurd hlen (by decide)

end Libaergo.Query
