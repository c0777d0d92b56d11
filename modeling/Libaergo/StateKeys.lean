import Libaergo.Txn.Calls

/-!
# The keys of state variables (`aergo.c`)

`EncodeStateQuery` makes the storage key of a variable in a buffer of 256 bytes: `_sv_` and the name, the
first opening bracket replaced by a minus and the text cut at the last closing one, or what is behind
`raw:`.  The query has the hash of what stands in the buffer, which is the complete text of the key just
when it fits, or when only the closing bracket does not and the key of the map has none
(`queries_iff`).
-/

namespace Libaergo.StateKey

open Lib Nanopb

/-! ### The key -/

/-- `raw:` -/
def rawText : Bytes := [0x72, 0x61, 0x77, 0x3a]

/-- `_sv_` -/
def svText : Bytes := [0x5f, 0x73, 0x76, 0x5f]

def strrchr (s : Bytes) (c : UInt8) : Option ℕ := (s.reverse.idxOf? c).map fun i => s.length - 1 - i

/-- The text in `key_buffer` that is hashed. -/
def keyBuffer (varName : Bytes) : Bytes :=
  if varName.take 4 = rawText then (varName.drop 4).take 255
  else
    let key := (svText ++ varName).take 255
    match key.idxOf? 0x5b with
    | none => key
    | some i =>
      let key := key.set i 0x2d
      match strrchr key 0x5d with
      | none => key
      | some j => key.take j

/-! ### The query -/

section Query

variable (sha256 : Bytes → Hash) (stack : ℕ → UInt8)

def encodeAccountAddress (str : Bytes) (field : PbField) : Encoder := fun s =>
  if str.length ≠ encodedAddressLength then throw "callback error"
  else
    match decodeAddress sha256 stack str with
    | none => throw "callback error"
    | some decoded => do
      let s ← pbEncodeTagForField field s
      pbEncodeString decoded.toList s

/-- `StateQuery_fields` with the values and callbacks that `EncodeStateQuery` sets. -/
def stateQueryFields (contractAddress : Bytes) (hash : Hash) : List (PbField × FieldData) :=
  [(⟨1, .bytes⟩, .callback (some (encodeAccountAddress sha256 stack contractAddress))),
   (⟨3, .bytes⟩, .callback none),
   (⟨4, .bool⟩, .bool true),
   (⟨5, .bytes⟩, .callback (some (encodeBlob hash.toList)))]

/-- The text that was hashed, and the framed message or the error of the stream. -/
structure Encoding where
  hashed : Bytes
  result : Except String Bytes

/-- `EncodeStateQuery`; `*psize - 5` is computed in `size_t`. -/
def encodeStateQuery (psize : ℕ) (contractAddress varName : Bytes) : Encoding where
  hashed := keyBuffer varName
  result :=
    (pbEncode (stateQueryFields sha256 stack contractAddress (sha256 (keyBuffer varName)))
      (pbOstreamFromBuffer ((psize + (2 ^ 64 - 5)) % 2 ^ 64))).map fun stream => encodeHttp2DataFrame stream.written

end Query

/-! ### Variables -/

/-- What a caller can ask for: a variable, an element of a map or an array, a raw key. -/
inductive Variable where
  | plain (name : Bytes)
  | element (name key : Bytes)
  | raw (key : Bytes)

/-- The text that the caller passes. -/
def Variable.varName : Variable → Bytes
  | .plain name => name
  | .element name key => name ++ 0x5b :: (key ++ [0x5d])
  | .raw key => rawText ++ key

/-- The storage key of the variable. -/
def Variable.storageKey : Variable → Bytes
  | .plain name => svText ++ name
  | .element name key => svText ++ name ++ 0x2d :: key
  | .raw key => key

/-- The variable that a text names. -/
def Variable.ofVarName (varName : Bytes) : Variable :=
  if varName.take 4 = rawText then .raw (varName.drop 4)
  else
    match varName.idxOf? 0x5b with
    | none => .plain varName
    | some i => .element (varName.take i) (varName.drop (i + 1)).dropLast

/-- A name without brackets, that does not begin with `raw:`. -/
structure NameOk (name : Bytes) : Prop where
  nul : 0 ∉ name
  opening : 0x5b ∉ name
  closing : 0x5d ∉ name
  raw : ¬ rawText <+: name

/-- The name is one, and there is no null byte in the text. -/
def Variable.Ok : Variable → Prop
  | .plain name => NameOk name
  | .element name key => NameOk name ∧ 0 ∉ key
  | .raw key => 0 ∉ key

/-- The text fits the buffer, or all of it but the closing bracket, and there is no other. -/
def Variable.Fits : Variable → Prop
  | .plain name => name.length ≤ 251
  | .element name key => name.length + key.length ≤ 249 ∨ name.length + key.length = 250 ∧ 0x5d ∉ key
  | .raw key => key.length ≤ 255

section Key

variable {name key : Bytes} {c : UInt8}

lemma strrchr_of_notMem {s : Bytes} (h : c ∉ s) : strrchr s c = none := by
  have hnone : s.reverse.idxOf? c = none :=
    List.idxOf?_eq_none_iff.mpr fun hmem => h (List.mem_reverse.mp hmem)
  rw [strrchr, hnone, Option.map_none]

lemma strrchr_append_cons (as : Bytes) {bs : Bytes} (h : c ∉ bs) : strrchr (as ++ c :: bs) c = some as.length := by
  have hrev : (as ++ c :: bs).reverse = bs.reverse ++ c :: as.reverse := by simp
  rw [strrchr, hrev, idxOf?_append_cons _ fun hmem => h (List.mem_reverse.mp hmem), Option.map_some,
    List.length_append, List.length_cons, List.length_reverse]
  congr 1
  omega

lemma strrchr_lt {s : Bytes} {j : ℕ} (h : strrchr s c = some j) : j < s.length := by
  obtain ⟨i, hi, rfl⟩ := Option.map_eq_some_iff.mp h
  have hlt := (List.idxOf?_eq_some_iff.mp hi).1
  rw [List.length_reverse] at hlt
  omega

lemma strrchr_of_mem {s : Bytes} (h : c ∈ s) : ∃ j, strrchr s c = some j := by
  have hsome : s.reverse.idxOf? c ≠ none := fun hnone =>
    List.idxOf?_eq_none_iff.mp hnone (List.mem_reverse.mpr h)
  obtain ⟨i, hi⟩ := Option.ne_none_iff_exists'.mp hsome
  exact ⟨_, by rw [strrchr, hi, Option.map_some]⟩

lemma keyBuffer_length_le (varName : Bytes) : (keyBuffer varName).length ≤ 255 := by
  unfold keyBuffer
  split
  · exact List.length_take_le _ _
  · have hlen : ((svText ++ varName).take 255).length ≤ 255 := List.length_take_le _ _
    dsimp only
    split
    · exact hlen
    · split
      · rwa [List.length_set]
      · refine (List.length_take_le' _ _).trans ?_
        rwa [List.length_set]

lemma take_ne_rawText (h : ¬ rawText <+: name) (rest : Bytes) :
    (name ++ 0x5b :: rest).take 4 ≠ rawText := by
  intro heq
  rcases Nat.lt_or_ge name.length 4 with hlt | hge
  · -- the bracket is among the four
    have hmem : (0x5b : UInt8) ∈ (name ++ 0x5b :: rest).take 4 := by
      obtain ⟨k, hk⟩ : ∃ k, 4 = name.length + (k + 1) := ⟨4 - name.length - 1, by omega⟩
      rw [hk, List.take_length_add_append, List.take_succ_cons]
      exact List.mem_append_right _ List.mem_cons_self
    rw [heq] at hmem
    exact absurd hmem (by decide)
  · rw [List.take_append_of_le_length hge] at heq
    exact h (heq ▸ List.take_prefix 4 name)

lemma keyBuffer_plain (h : NameOk name) : keyBuffer name = (svText ++ name).take 255 := by
  have hraw : name.take 4 ≠ rawText := fun heq => h.raw (heq ▸ List.take_prefix 4 name)
  have hopen : (0x5b : UInt8) ∉ (svText ++ name).take 255 := by
    intro hmem
    rcases List.mem_append.mp (List.mem_of_mem_take hmem) with hmem | hmem
    · exact absurd hmem (by decide)
    · exact h.opening hmem
  rw [keyBuffer, if_neg hraw]
  dsimp only
  rw [List.idxOf?_eq_none_iff.mpr hopen]

lemma keyBuffer_open (h : NameOk name) {behind : Bytes}
    (htake : (svText ++ (name ++ 0x5b :: (key ++ [0x5d]))).take 255 = svText ++ name ++ 0x5b :: behind) :
    keyBuffer (name ++ 0x5b :: (key ++ [0x5d])) =
      match strrchr (svText ++ name ++ 0x2d :: behind) 0x5d with
      | none => svText ++ name ++ 0x2d :: behind
      | some j => (svText ++ name ++ 0x2d :: behind).take j := by
  have hopen : (0x5b : UInt8) ∉ svText ++ name := by
    intro hmem
    rcases List.mem_append.mp hmem with hmem | hmem
    · exact absurd hmem (by decide)
    · exact h.opening hmem
  have hset : (svText ++ name ++ 0x5b :: behind).set (svText ++ name).length 0x2d =
      svText ++ name ++ 0x2d :: behind := by
    rw [List.set_append_right _ _ le_rfl, Nat.sub_self, List.set_cons_zero]
  rw [keyBuffer, if_neg (take_ne_rawText h.raw _), htake]
  dsimp only
  rw [idxOf?_append_cons _ hopen]
  dsimp only
  rw [hset]

lemma keyBuffer_element (h : NameOk name) : keyBuffer (name ++ 0x5b :: (key ++ [0x5d])) = svText ++ name ++ 0x2d :: key ↔
    name.length + key.length ≤ 249 ∨ name.length + key.length = 250 ∧ 0x5d ∉ key := by
  have hsv : svText.length = 4 := rfl
  rcases Nat.lt_or_ge 250 (name.length + key.length) with hlong | hshort
  · -- the key alone is longer than what the buffer holds
    refine iff_of_false (fun heq => ?_) (by omega)
    have hle := keyBuffer_length_le (name ++ 0x5b :: (key ++ [0x5d]))
    rw [heq, List.length_append, List.length_append, List.length_cons] at hle
    omega
  · by_cases hfit : name.length + key.length ≤ 249
    · refine iff_of_true ?_ (.inl hfit)
      have htake : (svText ++ (name ++ 0x5b :: (key ++ [0x5d]))).take 255 =
          svText ++ name ++ 0x5b :: (key ++ [0x5d]) := by
        rw [← List.append_assoc, List.take_of_length_le]
        simp only [List.length_append, List.length_cons, List.length_nil]
        omega
      have hlast : svText ++ name ++ 0x2d :: (key ++ [0x5d]) = (svText ++ name ++ 0x2d :: key) ++ 0x5d :: [] := by simp
      rw [keyBuffer_open h htake, hlast, strrchr_append_cons _ List.not_mem_nil]
      exact List.take_left' rfl
    · have hexact : name.length + key.length = 250 := by omega
      have htake : (svText ++ (name ++ 0x5b :: (key ++ [0x5d]))).take 255 = svText ++ name ++ 0x5b :: key := by
        have hsplit : svText ++ (name ++ 0x5b :: (key ++ [0x5d])) = (svText ++ name ++ 0x5b :: key) ++ [0x5d] := by simp
        rw [hsplit]
        refine List.take_left' ?_
        simp only [List.length_append, List.length_cons]
        omega
      rw [keyBuffer_open h htake]
      by_cases hclose : (0x5d : UInt8) ∈ key
      · -- the text is cut inside the key
        refine iff_of_false (fun heq => ?_) (by simp [hclose, hfit])
        obtain ⟨j, hj⟩ := strrchr_of_mem (s := svText ++ name ++ 0x2d :: key)
          (List.mem_append_right _ (List.mem_cons_of_mem _ hclose))
        have hlt := strrchr_lt hj
        rw [hj] at heq
        have hlen := congrArg List.length heq
        rw [List.length_take] at hlen
        omega
      · refine iff_of_true ?_ (.inr ⟨hexact, hclose⟩)
        have hnone : (0x5d : UInt8) ∉ svText ++ name ++ 0x2d :: key := by
          intro hmem
          rcases List.mem_append.mp hmem with hmem | hmem
          · rcases List.mem_append.mp hmem with hmem | hmem
            · exact absurd hmem (by decide)
            · exact h.closing hmem
          · rcases List.mem_cons.mp hmem with hminus | hmem
            · exact absurd hminus (by decide)
            · exact hclose hmem
        rw [strrchr_of_notMem hnone]

/-- **What is hashed is the storage key, just when the text fits.** -/
lemma keyBuffer_eq_iff {v : Variable} (hv : v.Ok) : keyBuffer v.varName = v.storageKey ↔ v.Fits := by
  have htake : ∀ {s : Bytes} {n : ℕ}, s.take n = s ↔ s.length ≤ n := List.take_eq_self_iff _
  cases v with
  | plain name =>
    have hname : NameOk name := hv
    show keyBuffer name = svText ++ name ↔ name.length ≤ 251
    have hsv : svText.length = 4 := rfl
    rw [keyBuffer_plain hname, htake, List.length_append]
    omega
  | element name key => exact keyBuffer_element hv.1
  | raw key =>
    have hraw : (rawText ++ key).take 4 = rawText := List.take_left' rfl
    have hdrop : (rawText ++ key).drop 4 = key := List.drop_left' rfl
    show keyBuffer (rawText ++ key) = key ↔ key.length ≤ 255
    rw [keyBuffer, if_pos hraw, hdrop, htake]

lemma Variable.ofVarName_varName {v : Variable} (hv : v.Ok) : Variable.ofVarName v.varName = v := by
  unfold Variable.ofVarName
  cases v with
  | plain name =>
    have hname : NameOk name := hv
    have hraw : name.take 4 ≠ rawText := fun heq => hname.raw (heq ▸ List.take_prefix 4 name)
    have hopen : name.idxOf? 0x5b = none := List.idxOf?_eq_none_iff.mpr hname.opening
    simp only [varName, if_neg hraw, hopen]
  | element name key =>
    have hlast : (key ++ [0x5d]).dropLast = key := List.dropLast_concat
    have hbehind : (name ++ 0x5b :: (key ++ [0x5d])).drop (name.length + 1) = key ++ [0x5d] := by simp
    have hopen := idxOf?_append_cons (key ++ [0x5d]) hv.1.opening
    simp only [varName, if_neg (take_ne_rawText hv.1.raw _), hopen, hbehind, hlast, List.take_left]
  | raw key =>
    have hraw : (rawText ++ key).take 4 = rawText := List.take_left' rfl
    have hdrop : (rawText ++ key).drop 4 = key := List.drop_left' rfl
    simp only [varName, if_pos hraw, hdrop]

end Key

/-! ### The message -/

section Message

variable {sha256 : Bytes → Hash} {stack : ℕ → UInt8} {psize : ℕ} {contractAddress varName : Bytes}

def queryFields (address : Address) (hash : Hash) : List Wire.Field :=
  lenField 1 address.toList ++ (numField 4 1 ++ lenField 5 hash.toList)

lemma queryFields_length (address : Address) (hash : Hash) :
    (Wire.encode (queryFields address hash)).length = 71 := by
  have h10 : (varint (1 * 8 + 2)).length = 1 := by decide
  have h33 : (varint 33).length = 1 := by decide
  have h42 : (varint (5 * 8 + 2)).length = 1 := by decide
  have h32 : (varint 32).length = 1 := by decide
  have hone : (Wire.encode (numField 4 1)).length = 2 := by decide
  rw [queryFields, Wire.encode_append, Wire.encode_append, List.length_append, List.length_append, hone]
  simp only [lenField, Wire.encode, List.flatMap_cons, List.flatMap_nil, List.append_nil, Wire.Field.text,
    Wire.Value.wt, Wire.Value.payload, List.length_append, Vector.length_toList, h10, h33, h42, h32]

lemma emits_contractAddress {address : Address} (hlen : contractAddress.length = 52)
    (h : decodeAddress sha256 stack contractAddress = some address) :
    Emits (encodeField ⟨1, .bytes⟩ (.callback (some (encodeAccountAddress sha256 stack contractAddress))))
      (Wire.encode (lenField 1 address.toList)) := by
  have haddress : encodeAccountAddress sha256 stack contractAddress ⟨1, .bytes⟩ =
      fun s => pbEncodeTagForField ⟨1, .bytes⟩ s >>= pbEncodeString address.toList := by
    funext s
    have hsize : ¬ contractAddress.length ≠ encodedAddressLength := not_not.mpr hlen
    rw [encodeAccountAddress, if_neg hsize, h]
  exact Emits.callback (haddress ▸ emits_len ⟨1, .bytes⟩ (by decide) rfl (by simp))

lemma encodeAccountAddress_refused
    (h : contractAddress.length ≠ 52 ∨ decodeAddress sha256 stack contractAddress = none) (field : PbField)
    (s : OStream) : encodeAccountAddress sha256 stack contractAddress field s = .error "callback error" := by
  unfold encodeAccountAddress
  by_cases hlen : contractAddress.length ≠ encodedAddressLength
  · rw [if_pos hlen]
    rfl
  · rw [if_neg hlen, h.resolve_left hlen]
    rfl

lemma emits_stateQueryFields {address : Address} (hash : Hash) (hlen : contractAddress.length = 52)
    (h : decodeAddress sha256 stack contractAddress = some address) :
    Emits (pbEncode (stateQueryFields sha256 stack contractAddress hash))
      (Wire.encode (queryFields address hash)) := by
  have hfirst := emits_contractAddress hlen h
  have hflag : Emits (encodeField ⟨4, .bool⟩ (.bool true)) (Wire.encode (numField 4 1)) := by
    have hone : Emits (pbEncodeVarint 1) (varint 1) := emits_pbEncodeVarint (by decide)
    exact (emits_pbEncodeTagForField ⟨4, .bool⟩ (by decide)).bind hone
  have hroot : Emits (encodeField ⟨3, .bytes⟩ (.callback none)) [] := emits_pure
  have hhash : blobField 5 hash.toList = lenField 5 hash.toList := by simp [blobField]
  have hkeys : Emits _ (Wire.encode (lenField 5 hash.toList)) := hhash ▸ emits_blob (by decide) (by simp)
  have hfields : Emits (pbEncode (stateQueryFields sha256 stack contractAddress hash)) _ :=
    hfirst.cons <| hroot.cons <| hflag.cons <| hkeys.cons pbEncode_nil
  simpa [queryFields, Wire.encode_append] using hfields

lemma result_eq {address : Address} (hlen : contractAddress.length = 52)
    (h : decodeAddress sha256 stack contractAddress = some address) :
    (encodeStateQuery sha256 stack psize contractAddress varName).result =
      if 71 ≤ (psize + (2 ^ 64 - 5)) % 2 ^ 64 then
        .ok (encodeHttp2DataFrame (Wire.encode (queryFields address (sha256 (keyBuffer varName)))))
      else .error "stream full" := by
  have hfrom := (emits_stateQueryFields (sha256 (keyBuffer varName)) hlen h).fromBuffer
    ((psize + (2 ^ 64 - 5)) % 2 ^ 64)
  rw [queryFields_length] at hfrom
  unfold encodeStateQuery
  dsimp only
  rw [hfrom]
  split <;> rfl

lemma result_refused (h : contractAddress.length ≠ 52 ∨ decodeAddress sha256 stack contractAddress = none) :
    (encodeStateQuery sha256 stack psize contractAddress varName).result = .error "callback error" := by
  unfold encodeStateQuery
  dsimp only
  rw [stateQueryFields, pbEncode, encodeField, encodeAccountAddress_refused h]
  rfl

end Message

/-! ### The complete key -/

section Queries

variable (sha256 : Bytes → Hash) (stack : ℕ → UInt8) (psize : ℕ) (contractAddress : Bytes)

/-- **The query fails, or asks the contract for the hash of the complete key.** -/
def Queries (v : Variable) : Prop :=
  let query := encodeStateQuery sha256 stack psize contractAddress v.varName
  (∃ error, query.result = .error error) ∨
    query.hashed = v.storageKey ∧
      ∃ address content fs, decodeAddress sha256 stack contractAddress = some address ∧
        query.result = .ok (encodeHttp2DataFrame content) ∧ Wire.decode content = some fs ∧
        Wire.allBytes 1 fs = [address.toList] ∧ Wire.allBytes 5 fs = [(sha256 v.storageKey).toList]

lemma Queries.hashed {sha256 : Bytes → Hash} {stack : ℕ → UInt8} {psize : ℕ} {contractAddress : Bytes}
    {v : Variable} (h : Queries sha256 stack psize contractAddress v) :
    (∃ error, (encodeStateQuery sha256 stack psize contractAddress v.varName).result = .error error) ∨
      keyBuffer v.varName = v.storageKey := by
  rcases h with herror | ⟨hhashed, -⟩
  · exact .inl herror
  · exact .inr hhashed

/-- The address is not one, or the message does not fit its buffer. -/
def Refused : Prop :=
  contractAddress.length ≠ 52 ∨ decodeAddress sha256 stack contractAddress = none ∨
    (psize + (2 ^ 64 - 5)) % 2 ^ 64 < 71

variable {v : Variable}

/-- **A variable is asked for by its complete key, if and only if the query is refused or the key fits.** -/
theorem queries_iff (hv : v.Ok) :
    Queries sha256 stack psize contractAddress v ↔ Refused sha256 stack psize contractAddress ∨ v.Fits := by
  unfold Queries Refused
  rw [← keyBuffer_eq_iff hv]
  dsimp only
  by_cases hrefused : contractAddress.length ≠ 52 ∨ decodeAddress sha256 stack contractAddress = none
  · refine iff_of_true (.inl ⟨_, result_refused hrefused⟩) (.inl ?_)
    exact hrefused.imp_right .inl
  · rw [not_or, not_not] at hrefused
    obtain ⟨hlen, hsome⟩ := hrefused
    obtain ⟨address, haddress⟩ := Option.ne_none_iff_exists'.mp hsome
    have hresult : (encodeStateQuery sha256 stack psize contractAddress v.varName).result = _ :=
      result_eq hlen haddress
    by_cases hfit : 71 ≤ (psize + (2 ^ 64 - 5)) % 2 ^ 64
    · rw [if_pos hfit] at hresult
      have hnot : ¬ (contractAddress.length ≠ 52 ∨ decodeAddress sha256 stack contractAddress = none ∨
          (psize + (2 ^ 64 - 5)) % 2 ^ 64 < 71) := by
        rintro (h | h | h)
        · exact h hlen
        · exact hsome h
        · exact absurd hfit (not_le.mpr h)
      rw [or_iff_right hnot]
      constructor
      · rintro (⟨error, herror⟩ | ⟨hhashed, -⟩)
        · rw [hresult] at herror
          cases herror
        · exact hhashed
      · intro hkey
        rw [hkey] at hresult
        refine .inr ⟨hkey, address, _, _, haddress, hresult, Wire.decode_encode ?_, rfl, rfl⟩
        intro f hf
        rcases List.mem_append.mp hf with hf | hf
        · exact ok_lenField (by decide) (by decide) (by simp) f hf
        · rcases List.mem_append.mp hf with hf | hf
          · exact ok_numField (by decide) (by decide) (by decide) f hf
          · exact ok_lenField (by decide) (by decide) (by simp) f hf
    · rw [if_neg hfit] at hresult
      exact iff_of_true (.inl ⟨_, hresult⟩) (.inl (.inr (.inr (not_le.mp hfit))))

end Queries

theorem queries_iff_short :
    Queries Libaergo.sha256 zeroStack 1024 sampleAddress (.plain [0x61]) ↔
      Refused Libaergo.sha256 zeroStack 1024 sampleAddress ∨ Variable.Fits (.plain [0x61]) :=
  queries_iff _ _ _ _ ⟨by decide, by decide, by decide, by decide⟩

/-- **A name of 252 characters loses its last one**, and of an element with a bracket in its key what is
behind it is lost as well. -/
theorem long_name_shortened :
    (Variable.plain (List.replicate 252 0x61)).Ok ∧
      ¬ Queries Libaergo.sha256 zeroStack 1024 sampleAddress (.plain (List.replicate 252 0x61)) ∧
      keyBuffer (Variable.element [0x6d] (0x5d :: List.replicate 248 0x61)).varName = svText ++ [0x6d, 0x2d] := by
  have hsome : (decodeAddress Libaergo.sha256 zeroStack sampleAddress).isSome := by decide +kernel
  obtain ⟨address, haddress⟩ := Option.isSome_iff_exists.mp hsome
  have hname : NameOk (List.replicate 252 0x61) := by
    refine ⟨fun h => ?_, fun h => ?_, fun h => ?_, fun h => ?_⟩
    · exact absurd (List.eq_of_mem_replicate h) (by decide)
    · exact absurd (List.eq_of_mem_replicate h) (by decide)
    · exact absurd (List.eq_of_mem_replicate h) (by decide)
    · have hmem : (0x72 : UInt8) ∈ List.replicate 252 (0x61 : UInt8) := h.subset List.mem_cons_self
      exact absurd (List.eq_of_mem_replicate hmem) (by decide)
  refine ⟨hname, ?_, by decide +kernel⟩
  intro hqueries
  have hfits := keyBuffer_eq_iff (v := .plain (List.replicate 252 0x61)) hname
  rcases hqueries.hashed with ⟨error, herror⟩ | hhashed
  · rw [result_eq (by decide) haddress, if_pos (by decide)] at herror
    cases herror
  · have hle : (List.replicate 252 (0x61 : UInt8)).length ≤ 251 := hfits.mp hhashed
    rw [List.length_replicate] at hle
    exact absurd hle (by decide)

end Libaergo.StateKey
