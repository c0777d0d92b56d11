import Libaergo.Nanopb.Records
import Libaergo.Socket.Requests

/-!
# The blocks of a block stream (`aergo.c`)

`handle_block_response` decodes the whole `Block` and has callbacks for three fields that it only prints.
They copy their bytes to a buffer of 1024, and fail if these do not fit, and with them the block: the
subscriber gets a well-formed block just when its chain ID, its public keys and all its transactions have
at most 1023 bytes.
-/

namespace Libaergo.Block

open Lib Nanopb

def blockHeaderFields : Fields :=
  [(1, .callback), (2, .callback), (3, .uint64), (4, .int64), (5, .callback), (6, .callback), (7, .callback),
    (8, .uint64), (9, .callback), (10, .callback), (11, .callback), (12, .callback)]

def blockBodyFields : Fields := [(1, .callback)]

def blockFields : Fields := [(1, .callback), (2, .message blockHeaderFields), (3, .message blockBodyFields)]

/-- What the handler reads of the header in a `Block`. -/
structure Header where
  blockNo : ℤ
  timestamp : ℤ

/-- The copy to a buffer of that size, with room for a null byte; the output of the debug build is left
out. -/
def printBuffer (size : ℕ) (block : Header) (stream : Bytes) : Option Header :=
  if size - 1 < stream.length then none else some block

def printString : Header → Bytes → Option Header := printBuffer 1024

def printBlob : Header → Bytes → Option Header := printBuffer 1024

/-- The callbacks that `handle_block_response` sets, and the numbers that it reads. -/
def blockEffects : Effects Header where
  read path :=
    if path = [2, 1] then some printBlob
    else if path = [2, 9] then some printBlob
    else if path = [3, 1] then some printString
    else none
  store path value block :=
    if path = [2, 3] then { block with blockNo := value }
    else if path = [2, 4] then { block with timestamp := value }
    else block

/-- What `handle_block_response` passes to the callback, as it has it: two numbers of 64 bits without
sign. -/
def decodeBlock (m : Bytes) : Option (ℕ × ℕ) :=
  match pbDecode blockFields blockEffects.dest ⟨0, 0⟩ m with
  | (_, none) => none
  | (block, some _) => some (block.blockNo.toNat, (block.timestamp % 2 ^ 64).toNat)

/-! ### The fields that are printed -/

/-- The chain ID, the public key and the transactions. -/
def Printed (path : List ℕ) : Prop := path = [2, 1] ∨ path = [2, 9] ∨ path = [3, 1]

/-- **What is printed fits its buffer.** -/
def PrintsFit (es : List Entry) : Prop := ∀ path b, .bytes path b ∈ es → Printed path → b.length ≤ 1023

section Decode

variable {m : Bytes} {es : List Entry}

lemma blockEffects_callbacks (path : List ℕ) : blockEffects.callbacks path ↔ Printed path := by
  unfold Effects.callbacks blockEffects Printed
  dsimp only
  split_ifs with h1 h2 h3
  · exact iff_of_true rfl (.inl h1)
  · exact iff_of_true rfl (.inr (.inl h2))
  · exact iff_of_true rfl (.inr (.inr h3))
  · exact iff_of_false Bool.false_ne_true (by simp [h1, h2, h3])

lemma blockEffects_read {path : List ℕ} {read : Header → Bytes → Option Header}
    (h : blockEffects.read path = some read) : read = printBuffer 1024 := by
  unfold blockEffects at h
  dsimp only at h
  split_ifs at h <;> exact (Option.some.inj h).symm

lemma printBuffer_isSome (block : Header) (b : Bytes) : (printBuffer 1024 block b).isSome ↔ b.length ≤ 1023 := by
  unfold printBuffer
  split
  · next h => exact iff_of_false Bool.false_ne_true (not_le.mpr h)
  · next h => exact iff_of_true rfl (not_lt.mp h)

lemma printBuffer_eq_some {size : ℕ} {block block' : Header} {b : Bytes}
    (h : printBuffer size block b = some block') : block' = block := by
  obtain ⟨-, h⟩ := Option.ite_none_left_eq_some.mp h
  exact (Option.some.inj h).symm

/-- What is accepted of a `Block`. -/
def accepts : Entry → Bool
  | .number _ _ => true
  | .bytes path b => !blockEffects.callbacks path || b.length ≤ 1023

lemma apply_isSome (block : Header) (entry : Entry) : (blockEffects.apply block entry).isSome = accepts entry := by
  cases entry with
  | number path value => rfl
  | bytes path b =>
    cases hread : blockEffects.read path with
    | none => simp [accepts, Effects.apply, Effects.callbacks, hread]
    | some read =>
      have hok := printBuffer_isSome block b
      rw [← blockEffects_read hread] at hok
      rw [Effects.apply_bytes hread, accepts, Effects.callbacks, hread, Option.isSome_some, Bool.not_true,
        Bool.false_or, Bool.eq_iff_iff, hok, decide_eq_true_iff]

lemma all_accepts : es.all accepts = true ↔ PrintsFit es := by
  rw [List.all_eq_true]
  constructor
  · intro hall path b hmem hprinted
    have h := hall _ hmem
    rw [accepts, (blockEffects_callbacks path).mpr hprinted, Bool.not_true, Bool.false_or] at h
    exact of_decide_eq_true h
  · intro hfit entry hmem
    cases entry with
    | number path value => rfl
    | bytes path b =>
      rw [accepts, Bool.or_eq_true]
      cases hcb : blockEffects.callbacks path with
      | false => exact .inl rfl
      | true => exact .inr (decide_eq_true (hfit path b hmem ((blockEffects_callbacks path).mp hcb)))

lemma printsFit_filter :
    PrintsFit (es.filter (Entry.visible blockEffects.callbacks)) ↔ PrintsFit es := by
  refine forall₂_congr fun path b => ⟨fun h hmem hprinted => ?_, fun h hmem => h (List.mem_of_mem_filter hmem)⟩
  exact h (List.mem_filter.mpr ⟨hmem, (blockEffects_callbacks path).mpr hprinted⟩) hprinted

lemma blockEffects_apply_bytes {block block' : Header} {path : List ℕ} {b : Bytes}
    (h : blockEffects.apply block (.bytes path b) = some block') : block' = block := by
  cases hread : blockEffects.read path with
  | none =>
    rw [Effects.apply, hread] at h
    exact (Option.some.inj h).symm
  | some read =>
    rw [Effects.apply_bytes hread, blockEffects_read hread] at h
    exact printBuffer_eq_some h

lemma blockEffects_run (h : (blockEffects.run ⟨0, 0⟩ es).2 = true) :
    (blockEffects.run ⟨0, 0⟩ es).1 = ⟨lastNumber [2, 3] es, lastNumber [2, 4] es⟩ := by
  have hno := Effects.run_part Header.blockNo (Entry.updNumber [2, 3])
    (fun block entry block' happ => by
      cases entry with
      | number path value =>
        obtain rfl := Option.some.inj happ
        show (blockEffects.store path value block).blockNo = if path = [2, 3] then value else block.blockNo
        unfold blockEffects
        dsimp only
        split_ifs <;> rfl
      | bytes path b => rw [blockEffects_apply_bytes happ]; rfl) h
  have htime := Effects.run_part Header.timestamp (Entry.updNumber [2, 4])
    (fun block entry block' happ => by
      cases entry with
      | number path value =>
        obtain rfl := Option.some.inj happ
        show (blockEffects.store path value block).timestamp = if path = [2, 4] then value else block.timestamp
        unfold blockEffects
        dsimp only
        split_ifs with h1 h2 h2
        · exact absurd (h1.symm.trans h2) (by decide)
        · rfl
        · rfl
        · rfl
      | bytes path b => rw [blockEffects_apply_bytes happ]; rfl) h
  generalize (blockEffects.run ⟨0, 0⟩ es).1 = block at hno htime ⊢
  cases block
  exact congrArg₂ Header.mk hno htime

/-- **A well-formed block decodes if what is printed fits.** -/
lemma decodeBlock_of_fit (hm : Encodes blockFields [] m es) (hfit : PrintsFit es) :
    decodeBlock m = some ((lastNumber [2, 3] es).toNat, (lastNumber [2, 4] es % 2 ^ 64).toNat) := by
  have hrecord := record_encodes blockEffects.callbacks hm
  have hall : (es.filter (Entry.visible blockEffects.callbacks)).all accepts = true := by
    rw [all_accepts, printsFit_filter]
    exact hfit
  have hrun : (blockEffects.run ⟨0, 0⟩ (es.filter (Entry.visible blockEffects.callbacks))).2 = true :=
    (Effects.run_all accepts apply_isSome).trans hall
  unfold decodeBlock
  rw [pbDecode_accepts accepts apply_isSome, hrecord, if_pos hall]
  dsimp only
  rw [blockEffects_run hrun, lastNumber_filter, lastNumber_filter]

/-- A well-formed block does not decode if what is printed does not fit. -/
lemma decodeBlock_of_not_fit (hm : Encodes blockFields [] m es) (hfit : ¬ PrintsFit es) :
    decodeBlock m = none := by
  have hrecord := record_encodes blockEffects.callbacks hm
  have hall : ¬ (es.filter (Entry.visible blockEffects.callbacks)).all accepts = true := by
    rw [all_accepts, printsFit_filter]
    exact hfit
  unfold decodeBlock
  rw [pbDecode_accepts accepts apply_isSome, hrecord, if_neg hall]

end Decode

/-! ### The stream -/

def reading (E : Env) : Env := { E with codec := { E.codec with block := decodeBlock } }

/-- The handler succeeds, and has called the subscriber once, with the number and the time in the header. -/
def Delivered (E : Env) (w : World) (r : ReqId) (cb : ℕ) (m : Bytes) (es : List Entry) : Prop :=
  handleBlockResponse (reading E) w r m =
    (true, { w with
      log := ⟨(w.heap r).parent.getD r, cb, (w.heap r).arg,
        .block (lastNumber [2, 3] es).toNat (lastNumber [2, 4] es % 2 ^ 64).toNat⟩ :: w.log })

section Stream

variable {E : Env} {w : World} {r : ReqId} {cb : ℕ} {m : Bytes} {es : List Entry}

lemma handleBlockResponse_of_none (h : decodeBlock m = none) :
    handleBlockResponse (reading E) w r m = (false, w) := by
  unfold handleBlockResponse reading
  dsimp only
  rw [h]

/-- **A well-formed block reaches the subscriber if and only if what the handler prints of it fits.** -/
theorem delivered_iff (hcb : (w.heap r).callback = some cb) (hm : Encodes blockFields [] m es) :
    Delivered E w r cb m es ↔ PrintsFit es := by
  unfold Delivered
  by_cases hfit : PrintsFit es
  · refine iff_of_true ?_ hfit
    have hdecode := decodeBlock_of_fit hm hfit
    unfold handleBlockResponse reading
    dsimp only
    rw [hdecode]
    dsimp only
    rw [World.invoke, hcb]
  · refine iff_of_false ?_ hfit
    rw [handleBlockResponse_of_none (decodeBlock_of_not_fit hm hfit)]
    exact fun h => Bool.false_ne_true (congrArg Prod.fst h)

end Stream

def subscribed : World :=
  (World.start (fun _ => .initial) fun _ => ⟨false, 0⟩).modify 0 fun q =>
    { q with callback := some 4, processResponse := .block, keepActive := true }

lemma smallBlock_encodes : Encodes blockFields [] ([0x12, 0x02, 0x18, 0x05] ++ []) ([.number [2, 3] 5] ++ []) := by
  refine .message 2 blockHeaderFields [0x18, 0x05] [.number [2, 3] 5]
    (lenField_ok (by decide) (by decide) (by decide)) (by decide) rfl ?_ (.nil _ _)
  exact .number 3 5 .uint64 5 ⟨by decide, by decide, show 5 < 2 ^ 64 by decide⟩ rfl trivial
    ⟨by decide, by decide, by decide⟩ (.nil _ _)

theorem delivered_iff_small :
    Delivered sampleEnv subscribed 0 4 ([0x12, 0x02, 0x18, 0x05] ++ []) ([.number [2, 3] 5] ++ []) ↔
      PrintsFit ([.number [2, 3] 5] ++ []) :=
  delivered_iff rfl smallBlock_encodes

def oneTxn (txn : Bytes) : Bytes := (⟨1, .len txn⟩ : Wire.Field).text ++ []

def oneTxnBlock (txn : Bytes) : Bytes := (⟨3, .len (oneTxn txn)⟩ : Wire.Field).text ++ []

lemma oneTxnBlock_encodes {txn : Bytes} (h : (oneTxn txn).length < 2 ^ 32) (htxn : txn.length < 2 ^ 32) :
    Encodes blockFields [] (oneTxnBlock txn) ([.bytes [3, 1] txn] ++ []) := by
  refine .message 3 blockBodyFields (oneTxn txn) [.bytes [3, 1] txn] (lenField_ok (by decide) (by decide) h) h
    rfl ?_ (.nil _ _)
  exact .bytes 1 txn (lenField_ok (by decide) (by decide) htxn) htxn rfl (.nil _ _)

/-- A block with a transaction of 1024 bytes is well-formed, and the subscriber does not hear of it. -/
theorem large_transaction_lost :
    Encodes blockFields [] (oneTxnBlock (List.replicate 1024 0)) ([.bytes [3, 1] (List.replicate 1024 0)] ++ []) ∧
      handleBlockResponse (reading sampleEnv) subscribed 0 (oneTxnBlock (List.replicate 1024 0)) =
        (false, subscribed) := by
  have hlen : (List.replicate 1024 (0 : UInt8)).length = 1024 := List.length_replicate
  have hbody : (oneTxn (List.replicate 1024 0)).length < 2 ^ 32 := by decide +kernel
  have hm := oneTxnBlock_encodes hbody (hlen.trans_lt (by decide))
  refine ⟨hm, handleBlockResponse_of_none (decodeBlock_of_not_fit hm fun hfit => ?_)⟩
  have h := hfit [3, 1] _ (List.mem_singleton_self _) (.inr (.inr rfl))
  rw [hlen] at h
  exact absurd h (by decide)

end Libaergo.Block
