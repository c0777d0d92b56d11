import Libaergo.Arguments
import Libaergo.Nanopb.Records
import Libaergo.ResultBuffer

/-!
# The answer to a transaction (`aergo.c`)

A node answers a transaction with a status and, where it refuses it, a detail.  `handle_transfer_response` and
`handle_contract_call_response`, which is the same function under another name, read the detail into an array of
256 bytes on the stack that is not initialised, through `read_string`, which takes 256 bytes and puts a null byte
behind them; and a transaction that is refused gets `error %d: %s` of the array into its receipt, whether there
was a detail or not.

What is told of an answer is the answer just where every detail leaves room for its null byte and a refusal has
one (`told_iff`); of what a node has encoded, this is what it meant (`told_encodes`), and what the request of an
instance is answered with (`handleTransferResponse_of_fits`).
-/

namespace Libaergo.Commit

open Lib Nanopb Query

/-! ### The handler -/

def commitResultFields : Fields := [(1, .callback), (2, .uint32), (3, .callback)]

def commitResultListFields : Fields := [(1, .message commitResultFields)]

/-- `response.results.error`, and `error_msg`, which grows where it is written past its end. -/
structure Response where
  error : ℤ
  errorMsg : Bytes

/-- `read_string` into `error_msg` -/
def Response.readDetail (d : Response) (value : Bytes) : Option Response :=
  match readString ⟨d.errorMsg, 256⟩ value with
  | (_, none) => none
  | (s1, some _) => some { d with errorMsg := s1.ptr }

/-- The callback that the handler sets, and the number that it reads. -/
def effects : Effects Response where
  read path := if path = [1, 3] then some Response.readDetail else none
  store path value d := if path = [1, 2] then { d with error := value } else d

/-- What the handler does: what it returns, whether the request is marked to fetch a receipt, what it leaves in
`error_msg`, and where the receipt is marked as failed, the text that `snprintf` finds for `ret`, which is none
where no null byte ends `error_msg`. -/
structure Handled where
  success : Bool
  needReceipt : Bool
  errorMsg : Bytes
  failed : Option (Option Bytes)

/-- `"error %d: %s"` -/
def errorText (error : ℤ) (errorMsg : Bytes) : Bytes :=
  [0x65, 0x72, 0x72, 0x6f, 0x72, 0x20] ++ Arguments.intText (Arguments.int32 error) ++ [0x3a, 0x20] ++ errorMsg

section Handler

variable (receipt : Bool) (stack : Vector UInt8 256) (m : Bytes)

/-- **`handle_transfer_response`**, with or without a receipt to write to. -/
def handleTransferResponse : Handled :=
  match pbDecode commitResultListFields effects.dest ⟨0, stack.toList⟩ m with
  | (d, none) => ⟨false, false, d.errorMsg, none⟩
  | (d, some _) =>
    if d.error = 0 then ⟨true, true, d.errorMsg, none⟩
    else
      -- `sizeof(receipt->ret)` is 2048
      ⟨false, false, d.errorMsg,
        if receipt then some ((cString d.errorMsg).map fun s => (errorText d.error s).take 2047) else none⟩

def handleContractCallResponse : Handled := handleTransferResponse receipt stack m

end Handler

/-! ### What the answer says -/

section Told

variable (receipt : Bool) (stack : Vector UInt8 256) (m : Bytes)

/-- What the decoder finds in a message. -/
def entries (m : Bytes) : List Entry := (record effects.callbacks commitResultListFields m).1

/-- It is a message. -/
def Decodes (m : Bytes) : Prop := (record effects.callbacks commitResultListFields m).2.isSome

instance : Decidable (Decodes m) := inferInstanceAs (Decidable (_ = true))

def status (m : Bytes) : ℤ := lastNumber [1, 2] (entries m)

def details (m : Bytes) : List Bytes := values [1, 3] (entries m)

/-- **The answer is told**: nothing is written behind `error_msg`; a transaction that the node has accepted is to
fetch its receipt, and one that it has refused has the status and the detail in its receipt; and this is all that
is told. -/
structure Told : Prop where
  inside : (handleTransferResponse receipt stack m).errorMsg.length = 256
  accepted : (handleTransferResponse receipt stack m).needReceipt = true ↔ Decodes m ∧ status m = 0
  refused : Decodes m → status m ≠ 0 → receipt = true → (handleTransferResponse receipt stack m).failed =
    some (some (errorText (status m) (text ((details m).getLastD []))))
  silent : (handleTransferResponse receipt stack m).failed.isSome → Decodes m ∧ status m ≠ 0

/-- No detail that is read has 256 bytes; those of an answer that is told anything of are not longer; and a
refusal that is told has a detail, unless the stack begins with a null byte. -/
structure Fits : Prop where
  room : ∀ v ∈ (details m).takeWhile (·.length ≤ 256), v.length ≠ 256
  short : Decodes m → status m = 0 ∨ receipt = true → ∀ v ∈ details m, v.length ≤ 256
  detail : Decodes m → status m ≠ 0 → receipt = true → details m = [] → stack.toList.headD 0 = 0

end Told

/-! ### What the entries do -/

section Run

variable {receipt : Bool} {stack : Vector UInt8 256} {m : Bytes} {d d' : Response} {entry : Entry} {es : List Entry}

/-- A value that its callback accepts. -/
def accepts : Entry → Bool
  | .number _ _ => true
  | .bytes path b => if path = [1, 3] then b.length ≤ 256 else true

lemma apply_cases (h : effects.apply d entry = some d') :
    (∃ path v, entry = .number path v ∧ d' = if path = [1, 2] then { d with error := v } else d) ∨
    (∃ b, entry = .bytes [1, 3] b ∧ d' = { d with errorMsg := copyString d.errorMsg b }) ∨
    (∃ path b, entry = .bytes path b ∧ path ≠ [1, 3] ∧ d' = d) := by
  cases entry with
  | number path v => exact .inl ⟨path, v, rfl, (Option.some.inj h).symm⟩
  | bytes path b =>
    by_cases hpath : path = [1, 3]
    · subst hpath
      rw [Effects.apply_bytes (by rfl : _ = some Response.readDetail), Response.readDetail, readString] at h
      dsimp only at h
      by_cases hlong : 256 < b.length
      · rw [if_pos hlong] at h
        cases h
      · rw [if_neg hlong] at h
        exact .inr (.inl ⟨b, rfl, (Option.some.inj h).symm⟩)
    · have hread : effects.read path = none := if_neg hpath
      rw [Effects.apply, hread] at h
      exact .inr (.inr ⟨path, b, rfl, hpath, (Option.some.inj h).symm⟩)

lemma apply_isSome (d : Response) (entry : Entry) : (effects.apply d entry).isSome = accepts entry := by
  cases entry with
  | number path v => rfl
  | bytes path b =>
    rw [Bool.eq_iff_iff, accepts]
    by_cases hpath : path = [1, 3]
    · subst hpath
      rw [if_pos rfl, Effects.apply_bytes (by rfl : _ = some Response.readDetail), Response.readDetail, readString,
        decide_eq_true_iff]
      dsimp only
      by_cases hlong : 256 < b.length
      · rw [if_pos hlong]
        exact iff_of_false Bool.false_ne_true (not_le.mpr hlong)
      · rw [if_neg hlong]
        exact iff_of_true rfl (not_lt.mp hlong)
    · have hread : effects.read path = none := if_neg hpath
      rw [if_neg hpath, Effects.apply, hread]
      exact iff_of_true rfl rfl

lemma run_error (h : (effects.run ⟨0, stack.toList⟩ es).2 = true) :
    (effects.run ⟨0, stack.toList⟩ es).1.error = lastNumber [1, 2] es := by
  refine Effects.run_part Response.error (Entry.updNumber [1, 2]) (fun d entry d' happ => ?_) h
  obtain ⟨path, v, rfl, rfl⟩ | ⟨b, rfl, rfl⟩ | ⟨path, b, rfl, -, rfl⟩ := apply_cases happ
  · rw [Entry.updNumber]
    split <;> rfl
  · rfl
  · rfl

/-- The details are copied over what is on the stack. -/
lemma run_errorMsg (h : (effects.run ⟨0, stack.toList⟩ es).2 = true) :
    (effects.run ⟨0, stack.toList⟩ es).1.errorMsg = (values [1, 3] es).foldl copyString stack.toList := by
  rw [← foldl_updBytes]
  refine Effects.run_part Response.errorMsg (Entry.updBytes [1, 3] copyString) (fun d entry d' happ => ?_) h
  obtain ⟨path, v, rfl, rfl⟩ | ⟨b, rfl, rfl⟩ | ⟨path, b, rfl, hpath, rfl⟩ := apply_cases happ
  · rw [Entry.updBytes]
    split <;> rfl
  · rw [Entry.updBytes, if_pos rfl]
  · rw [Entry.updBytes, if_neg hpath]

lemma all_accepts_iff : es.all accepts = true ↔ ∀ v ∈ values [1, 3] es, v.length ≤ 256 := by
  rw [List.all_eq_true]
  constructor
  · intro h v hv
    have haccept := h _ (mem_values.mp hv)
    rwa [accepts, if_pos rfl, decide_eq_true_iff] at haccept
  · intro h entry hentry
    cases entry with
    | number path v => rfl
    | bytes path b =>
      rw [accepts]
      split
      · next hpath =>
        subst hpath
        exact decide_eq_true (h b (mem_values.mpr hentry))
      · rfl

/-- The entries in front of a detail that is too long have the details in front of it. -/
lemma values_takeWhile (es : List Entry) :
    values [1, 3] (es.takeWhile accepts) = (values [1, 3] es).takeWhile (·.length ≤ 256) := by
  induction es with
  | nil => rfl
  | cons entry es ih =>
    have hcons : ∀ fs, values [1, 3] (entry :: fs) = (entry.value? [1, 3]).toList ++ values [1, 3] fs := by
      intro fs
      unfold values
      rw [List.filterMap_cons]
      cases entry.value? [1, 3] <;> rfl
    have hvalue : entry.value? [1, 3] = none ∧ accepts entry = true ∨
        ∃ b, entry.value? [1, 3] = some b ∧ accepts entry = decide (b.length ≤ 256) := by
      cases entry with
      | number path v => exact .inl ⟨rfl, rfl⟩
      | bytes path b =>
        by_cases hpath : path = [1, 3]
        · exact .inr ⟨b, if_pos hpath, if_pos hpath⟩
        · exact .inl ⟨if_neg hpath, if_neg hpath⟩
    rw [hcons]
    rcases hvalue with ⟨hnone, haccepts⟩ | ⟨b, hsome, haccepts⟩
    · rw [List.takeWhile_cons_of_pos haccepts, hcons, hnone, Option.toList_none, List.nil_append, List.nil_append, ih]
    · rw [hsome, Option.toList_some, List.singleton_append, List.takeWhile_cons, List.takeWhile_cons, haccepts]
      split
      · rw [hcons, hsome, Option.toList_some, List.singleton_append, ih]
      · rfl

lemma decode_of_short (stack : Vector UInt8 256) (hdec : Decodes m) (hshort : ∀ v ∈ details m, v.length ≤ 256) :
    ∃ rest, pbDecode commitResultListFields effects.dest ⟨0, stack.toList⟩ m =
      (⟨status m, (details m).foldl copyString stack.toList⟩, some rest) := by
  have hall : (entries m).all accepts = true := all_accepts_iff.mpr hshort
  have hrun : (effects.run ⟨0, stack.toList⟩ (entries m)).2 = true := (Effects.run_all accepts apply_isSome).trans hall
  obtain ⟨rest, hdecode⟩ := pbDecode_of_accepts accepts apply_isSome ⟨hdec, hall⟩ ⟨0, stack.toList⟩
  refine ⟨rest, hdecode.trans ?_⟩
  rw [← entries, status, details, ← run_error hrun, ← run_errorMsg hrun]

/-- The handler in terms of the message: what is left in `error_msg` are the details up to the first that is too
long. -/
lemma handle_eq (receipt : Bool) (stack : Vector UInt8 256) (m : Bytes) :
    handleTransferResponse receipt stack m =
      let errorMsg := ((details m).takeWhile (·.length ≤ 256)).foldl copyString stack.toList
      if Decodes m ∧ ∀ v ∈ details m, v.length ≤ 256 then
        if status m = 0 then ⟨true, true, errorMsg, none⟩
        else ⟨false, false, errorMsg,
          if receipt then some ((cString errorMsg).map fun s => (errorText (status m) s).take 2047) else none⟩
      else ⟨false, false, errorMsg, none⟩ := by
  unfold handleTransferResponse
  by_cases h : Decodes m ∧ ∀ v ∈ details m, v.length ≤ 256
  · obtain ⟨rest, hdecode⟩ := decode_of_short stack h.1 h.2
    have hall : (details m).takeWhile (·.length ≤ 256) = details m :=
      List.takeWhile_eq_self_iff.mpr fun v hv => by simpa using h.2 v hv
    rw [hdecode, if_pos h, hall]
  · have hrun := @Effects.run_takeWhile _ effects ⟨0, stack.toList⟩ (entries m) accepts apply_isSome
    have herrorMsg : (effects.run ⟨0, stack.toList⟩ (entries m)).1.errorMsg =
        ((details m).takeWhile (·.length ≤ 256)).foldl copyString stack.toList := by
      rw [details, ← values_takeWhile, ← run_errorMsg (by rw [hrun]), hrun]
    rw [pbDecode_of_not_accepts accepts apply_isSome fun hread => h ⟨hread.1, all_accepts_iff.mp hread.2⟩, if_neg h]
    dsimp only
    rw [← entries, herrorMsg]

end Run

/-! ### What is told -/

section Told

variable {receipt : Bool} {stack : Vector UInt8 256} {m : Bytes} {vs : List Bytes}

lemma cString_details (hne : vs ≠ []) (memory : Bytes) :
    cString (vs.foldl copyString memory) = some (text (vs.getLastD [])) := by
  obtain ⟨before, v, rfl⟩ := (List.eq_nil_or_concat' vs).resolve_left hne
  rw [List.foldl_append, List.foldl_cons, List.foldl_nil, cString_copyString, List.getLastD_concat]

lemma errorText_take (error : ℤ) {s : Bytes} (h : s.length ≤ 256) :
    (errorText error s).take 2047 = errorText error s := by
  have hstatus := Arguments.intText_int32_length_le error
  refine List.take_of_length_le ?_
  simp only [errorText, List.length_append, List.length_cons, List.length_nil]
  omega

lemma errorText_inj {error : ℤ} {s s' : Bytes} : errorText error s = errorText error s' ↔ s = s' := by
  unfold errorText
  rw [List.append_right_inj]

/-- Nothing is written behind `error_msg` just when no detail that is read fills it. -/
lemma inside_iff : (handleTransferResponse receipt stack m).errorMsg.length = 256 ↔
    ∀ v ∈ (details m).takeWhile (·.length ≤ 256), v.length ≠ 256 := by
  have herrorMsg : (handleTransferResponse receipt stack m).errorMsg =
      ((details m).takeWhile (·.length ≤ 256)).foldl copyString stack.toList := by
    rw [handle_eq]
    dsimp only
    split_ifs <;> rfl
  have hstack : stack.toList.length = 256 := Vector.length_toList
  have hlength : (((details m).takeWhile (·.length ≤ 256)).foldl copyString stack.toList).length = 256 ↔
      ∀ v ∈ (details m).takeWhile (·.length ≤ 256), v.length < 256 := by
    have hfold := @foldl_copyString_length ((details m).takeWhile (·.length ≤ 256)) stack.toList
    rwa [hstack] at hfold
  rw [herrorMsg, hlength]
  refine forall_congr' fun v => forall_congr' fun hv => ?_
  have hle : v.length ≤ 256 := by simpa using List.mem_takeWhile_imp hv
  omega

lemma refused_iff (hshort : ∀ v ∈ details m, v.length ≤ 256) :
    (cString ((details m).foldl copyString stack.toList)).map (fun s => (errorText (status m) s).take 2047) =
      some (errorText (status m) (text ((details m).getLastD []))) ↔
    (details m = [] → stack.toList.headD 0 = 0) := by
  have htext : ∀ {s : Bytes}, s.length ≤ 256 → (text s).length ≤ 256 := fun h => (text_initial _).length_le.trans h
  by_cases hne : details m = []
  · have hstack : (text stack.toList).length ≤ 256 := htext Vector.length_toList.le
    rw [hne, List.foldl_nil, List.getLastD_nil, cString]
    constructor
    · intro h _
      split at h
      · rw [Option.map_some, errorText_take _ hstack, Option.some.injEq, errorText_inj] at h
        exact text_eq_nil_iff.mp h
      · cases h
    · intro h
      have hnil : text stack.toList = [] := text_eq_nil_iff.mpr (h rfl)
      have hmem : 0 ∈ stack.toList := by
        have hlen : stack.toList.length = 256 := Vector.length_toList
        have hzero := h rfl
        cases hs : stack.toList with
        | nil =>
          rw [hs] at hlen
          cases hlen
        | cons c cs =>
          rw [hs] at hzero
          obtain rfl : c = 0 := hzero
          exact List.mem_cons_self
      rw [if_pos hmem, Option.map_some, hnil, errorText_take _ (Nat.zero_le _)]
      rfl
  · have hlast : ((details m).getLastD []).length ≤ 256 := by
      obtain ⟨before, v, hv⟩ := (List.eq_nil_or_concat' (details m)).resolve_left hne
      rw [hv, List.getLastD_concat]
      exact hshort v (hv ▸ List.mem_append_right _ (List.mem_singleton_self v))
    rw [cString_details hne, Option.map_some, errorText_take _ (htext hlast)]
    exact iff_of_true rfl fun h => absurd h hne

/-- **The answers that are told**: no detail fills the array, none is longer in an answer that is told anything of,
and a refusal has a detail. -/
theorem told_iff (receipt : Bool) (stack : Vector UInt8 256) (m : Bytes) :
    Told receipt stack m ↔ Fits receipt stack m := by
  have hinside := @inside_iff receipt stack m
  have hhandle := handle_eq receipt stack m
  by_cases hread : Decodes m ∧ ∀ v ∈ details m, v.length ≤ 256
  · obtain ⟨hdec, hshort⟩ := hread
    have hall : (details m).takeWhile (·.length ≤ 256) = details m :=
      List.takeWhile_eq_self_iff.mpr fun v hv => by simpa using hshort v hv
    rw [if_pos ⟨hdec, hshort⟩, hall] at hhandle
    by_cases hok : status m = 0
    · rw [if_pos hok] at hhandle
      constructor
      · exact fun h => ⟨hinside.mp h.inside, fun _ _ => hshort, fun _ hne => absurd hok hne⟩
      · intro h
        refine ⟨hinside.mpr h.room, ?_, fun _ hne => absurd hok hne, fun hsome => ?_⟩
        · rw [hhandle]
          exact iff_of_true rfl ⟨hdec, hok⟩
        · rw [hhandle] at hsome
          cases hsome
    · rw [if_neg hok] at hhandle
      have hrefused : receipt = true → ((handleTransferResponse receipt stack m).failed =
          some (some (errorText (status m) (text ((details m).getLastD [])))) ↔
            (details m = [] → stack.toList.headD 0 = 0)) := by
        rintro rfl
        rw [hhandle, ← refused_iff hshort]
        exact Option.some_inj
      constructor
      · exact fun h => ⟨hinside.mp h.inside, fun _ _ => hshort, fun _ _ hr => (hrefused hr).mp (h.refused hdec hok hr)⟩
      · intro h
        refine ⟨hinside.mpr h.room, ?_, fun _ _ hr => (hrefused hr).mpr (h.detail hdec hok hr), fun _ => ⟨hdec, hok⟩⟩
        rw [hhandle]
        exact iff_of_false Bool.false_ne_true fun h => hok h.2
  · rw [if_neg hread] at hhandle
    constructor
    · intro h
      refine ⟨hinside.mp h.inside, fun hdec htold => ?_, fun hdec hne hr => ?_⟩
      · by_cases hok : status m = 0
        · have hneed := h.accepted.mpr ⟨hdec, hok⟩
          rw [hhandle] at hneed
          cases hneed
        · have hfailed := h.refused hdec hok (htold.resolve_left hok)
          rw [hhandle] at hfailed
          cases hfailed
      · have hfailed := h.refused hdec hne hr
        rw [hhandle] at hfailed
        cases hfailed
    · intro h
      refine ⟨hinside.mpr h.room, ?_, fun hdec _ hr => ?_, fun hsome => ?_⟩
      · rw [hhandle]
        exact iff_of_false Bool.false_ne_true fun hyes => hread ⟨hyes.1, h.short hyes.1 (.inl hyes.2)⟩
      · exact absurd ⟨hdec, h.short hdec (.inr hr)⟩ hread
      · rw [hhandle] at hsome
        cases hsome

/-- A refusal without a detail shows what is on the stack, and a detail of 256 bytes is ended behind the array. -/
example : (handleTransferResponse true (Vector.ofFn fun i => if i.val = 1 then 0 else 0x78) [0x0a, 2, 0x10, 7]).failed =
      some (some [0x65, 0x72, 0x72, 0x6f, 0x72, 0x20, 0x37, 0x3a, 0x20, 0x78]) ∧
    (handleTransferResponse true (Vector.replicate 256 0)
      ([0x0a, 0x85, 2, 0x10, 7, 0x1a, 0x80, 2] ++ List.replicate 256 0x78)).errorMsg.length = 257 := by decide +kernel

end Told

/-! ### Answers of a node -/

section Encoded

variable {receipt : Bool} {stack : Vector UInt8 256} {m : Bytes} {es : List Entry}

lemma entries_encodes (hm : Encodes commitResultListFields [] m es) :
    Decodes m ∧ status m = lastNumber [1, 2] es ∧ details m = values [1, 3] es := by
  have hrecord := record_encodes effects.callbacks hm
  have hentries : entries m = es.filter (Entry.visible effects.callbacks) := congrArg Prod.fst hrecord
  refine ⟨?_, ?_, ?_⟩
  · rw [Decodes, hrecord]
    rfl
  · rw [status, hentries, lastNumber_filter]
  · rw [details, hentries, values_filter (by rfl)]

/-- **What a node answers is told**: its refusal, with a detail of less than 256 bytes, is in the receipt, and a
transaction that it accepts waits for its receipt. -/
theorem told_encodes (hm : Encodes commitResultListFields [] m es) (hroom : ∀ v ∈ values [1, 3] es, v.length < 256)
    (hdetail : lastNumber [1, 2] es ≠ 0 → values [1, 3] es ≠ []) :
    (lastNumber [1, 2] es = 0 → (handleTransferResponse receipt stack m).needReceipt = true) ∧
      (lastNumber [1, 2] es ≠ 0 → receipt = true → (handleTransferResponse receipt stack m).failed =
        some (some (errorText (lastNumber [1, 2] es) (text (lastBytes [1, 3] es))))) := by
  obtain ⟨hdec, hstatus, hdetails⟩ := entries_encodes hm
  have hfits : Fits receipt stack m := by
    rw [← hstatus, ← hdetails] at hdetail
    rw [← hdetails] at hroom
    exact ⟨fun v hv => (hroom v (List.takeWhile_prefix _ |>.subset hv)).ne, fun _ _ v hv => (hroom v hv).le,
      fun _ hne _ hnil => absurd hnil (hdetail hne)⟩
  have htold := (told_iff receipt stack m).mpr hfits
  rw [← hstatus, lastBytes, ← hdetails]
  exact ⟨fun hok => htold.accepted.mpr ⟨hdec, hok⟩, htold.refused hdec⟩

end Encoded

/-! ### The answers of an instance -/

section Instance

def decodeCommit (stack : Vector UInt8 256) (m : Bytes) : Option CommitResult :=
  match pbDecode commitResultListFields effects.dest ⟨0, stack.toList⟩ m with
  | (_, none) => none
  | (d, some _) => some ⟨d.error.toNat, if details m = [] then none else cString d.errorMsg⟩

def reading (stack : Vector UInt8 256) (E : Env) : Env :=
  { E with codec := { E.codec with commit := decodeCommit stack } }

variable {stack : Vector UInt8 256} {m : Bytes}

lemma errorText_eq {error : ℤ} (hlo : 0 ≤ error) (hhi : error < 2 ^ 31) (detail : Bytes) :
    Libaergo.errorText error.toNat detail = errorText error detail := by
  have hint : Arguments.int32 error = error := Int.bmod_eq_of_le (by omega) (by omega)
  obtain ⟨n, rfl⟩ := Int.eq_ofNat_of_zero_le hlo
  rw [errorText, hint, Arguments.intText, if_neg (by omega)]
  rfl

/-- **What an instance makes of an answer is what the handler does**, with a status of the protocol and a detail
for every refusal. -/
theorem handleTransferResponse_of_fits (E : Env) (w : World) (r : ReqId) (hfits : Fits true stack m)
    (hdec : Decodes m) (hlo : 0 ≤ status m) (hhi : status m < 2 ^ 31) (hdetail : status m ≠ 0 → details m ≠ []) :
    Libaergo.handleTransferResponse (reading stack E) w r m =
      if status m = 0 then (true, w.modify r fun q => { q with needReceipt := true })
      else (false, w.setReceipt (w.heap r).returnPtr
        (.failed (some (errorText (status m) (text ((details m).getLastD [])))))) := by
  have hshort : ∀ v ∈ details m, v.length ≤ 256 := hfits.short hdec (.inr rfl)
  obtain ⟨rest, hdecode⟩ := decode_of_short stack hdec hshort
  have hcommit : decodeCommit stack m = some ⟨(status m).toNat,
      if details m = [] then none else cString ((details m).foldl copyString stack.toList)⟩ := by
    rw [decodeCommit, hdecode]
  have hzero : (status m).toNat = 0 ↔ status m = 0 := by omega
  unfold Libaergo.handleTransferResponse reading
  dsimp only
  rw [hcommit]
  dsimp only
  by_cases hok : status m = 0
  · rw [if_pos (hzero.mpr hok), if_pos hok]
  · have hne := hdetail hok
    rw [if_neg fun h => hok (hzero.mp h), if_neg hok, if_neg hne, cString_details hne, Option.map_some,
      errorText_eq hlo hhi]

end Instance

end Libaergo.Commit
