import Libaergo.Lib.Bytes
import Mathlib.Data.List.GetD
import Mathlib.Data.List.Induction

/-!
# Values copied over each other

A value copied to the front of an array leaves what is behind its end.  After several of them every byte
is that of the last value that reaches so far, or of the array (`foldl_overlay_getD`).  A value written to a
memory at an offset leaves the bytes outside (`writeAt_getD`).
-/

namespace Libaergo.Lib

/-- The array with the value at its front. -/
def overlay (dst value : Bytes) : Bytes := value ++ dst.drop value.length

def padded (n : ℕ) (value : Bytes) : Bytes := value ++ List.replicate (n - value.length) 0

/-- The last of the values that has an `i`-th byte has this one. -/
def Latest (values : List Bytes) (i : ℕ) (c : UInt8) : Prop :=
  ∃ before value after, values = before ++ value :: after ∧ value[i]? = some c ∧ ∀ v ∈ after, v.length ≤ i

section Overlay

variable {dst value : Bytes} {values : List Bytes} {i n : ℕ} {c : UInt8}

lemma overlay_length (h : value.length ≤ dst.length) : (overlay dst value).length = dst.length := by
  unfold overlay
  rw [List.length_append, List.length_drop, Nat.add_sub_cancel' h]

lemma overlay_getD (dst value : Bytes) (i : ℕ) :
    (overlay dst value).getD i 0 = if i < value.length then value.getD i 0 else dst.getD i 0 := by
  unfold overlay
  split
  · next h => exact List.getD_append _ _ _ _ h
  · next h =>
    have h := not_lt.mp h
    rw [List.getD_append_right _ _ _ _ h, List.getD_eq_getElem?_getD, List.getElem?_drop,
      Nat.add_sub_cancel' h, List.getD_eq_getElem?_getD]

lemma foldl_overlay_length (h : ∀ v ∈ values, v.length ≤ dst.length) :
    (values.foldl overlay dst).length = dst.length := by
  induction values generalizing dst with
  | nil => rfl
  | cons v values ih =>
    have hv := overlay_length (h v List.mem_cons_self)
    rw [List.foldl_cons, ih, hv]
    intro u hu
    rw [hv]
    exact h u (List.mem_cons_of_mem v hu)

lemma padded_length (h : value.length ≤ n) : (padded n value).length = n := by
  unfold padded
  rw [List.length_append, List.length_replicate, Nat.add_sub_cancel' h]

lemma padded_getD (n : ℕ) (value : Bytes) (i : ℕ) : (padded n value).getD i 0 = value.getD i 0 := by
  unfold padded
  by_cases h : i < value.length
  · exact List.getD_append _ _ _ _ h
  · have h := not_lt.mp h
    rw [List.getD_append_right _ _ _ _ h, List.getD_eq_default value 0 h, List.getD_eq_getElem?_getD,
      List.getElem?_getD_replicate_default_eq]

lemma latest_singleton : Latest [value] i c ↔ value[i]? = some c := by
  constructor
  · rintro ⟨before, v, after, heq, hv, -⟩
    cases before with
    | nil =>
      obtain ⟨rfl, -⟩ := List.cons.inj heq
      exact hv
    | cons u before => exact absurd (List.cons.inj heq).2.symm (List.append_ne_nil_of_right_ne_nil _ (by simp))
  · exact fun h => ⟨[], value, [], rfl, h, fun v hv => absurd hv List.not_mem_nil⟩

/-- The last value counts if it reaches so far, and otherwise those before it. -/
lemma latest_append : Latest (values ++ [value]) i c ↔
    if i < value.length then value.getD i 0 = c else Latest values i c := by
  split
  · next h =>
    have hget : value[i]? = some (value.getD i 0) := by
      rw [List.getD_eq_getElem?_getD, List.getElem?_eq_getElem h, Option.getD_some]
    constructor
    · rintro ⟨before, v, after, heq, hv, hafter⟩
      rcases List.eq_nil_or_concat' after with rfl | ⟨after, u, rfl⟩
      · obtain ⟨-, rfl⟩ := List.append_inj' heq rfl |>.imp_right (List.cons.inj · |>.1)
        exact Option.some.inj (hget.symm.trans hv)
      · rw [← List.cons_append, ← List.append_assoc] at heq
        obtain rfl : value = u := (List.append_inj' heq rfl).2 |> List.cons.inj |>.1
        have hle := hafter value (List.mem_append_right _ (List.mem_singleton_self _))
        exact absurd h (not_lt.mpr hle)
    · rintro rfl
      exact ⟨values, value, [], rfl, hget, fun v hv => absurd hv List.not_mem_nil⟩
  · next h =>
    have h := not_lt.mp h
    constructor
    · rintro ⟨before, v, after, heq, hv, hafter⟩
      rcases List.eq_nil_or_concat' after with rfl | ⟨after, u, rfl⟩
      · obtain ⟨-, rfl⟩ := List.append_inj' heq rfl |>.imp_right (List.cons.inj · |>.1)
        rw [List.getElem?_eq_none h] at hv
        cases hv
      · rw [← List.cons_append, ← List.append_assoc] at heq
        obtain rfl := (List.append_inj' heq rfl).1
        exact ⟨before, v, after, rfl, hv, fun w hw => hafter w (List.mem_append_left _ hw)⟩
    · rintro ⟨before, v, after, rfl, hv, hafter⟩
      refine ⟨before, v, after ++ [value], by simp, hv, fun w hw => ?_⟩
      rcases List.mem_append.mp hw with hw | hw
      · exact hafter w hw
      · obtain rfl := List.mem_singleton.mp hw
        exact h

/-- **What was copied last stands in the array.** -/
theorem foldl_overlay_getD (hi : i < dst.length) :
    (values.foldl overlay dst).getD i 0 = c ↔ Latest (dst :: values) i c := by
  induction values using List.reverseRecOn with
  | nil =>
    rw [latest_singleton, List.foldl_nil, List.getD_eq_getElem?_getD, List.getElem?_eq_getElem hi,
      Option.getD_some, Option.some_inj]
  | append_singleton values v ih =>
    rw [← List.cons_append, latest_append, List.foldl_append, List.foldl_cons, List.foldl_nil, overlay_getD]
    split
    · exact Iff.rfl
    · exact ih

lemma eq_iff_getD {as bs : Bytes} (ha : as.length = n) (hb : bs.length = n) :
    as = bs ↔ ∀ i < n, as.getD i 0 = bs.getD i 0 := by
  refine ⟨fun h i _ => h ▸ rfl, fun h => List.ext_getElem (ha.trans hb.symm) fun i hi hi' => ?_⟩
  have hget := h i (ha ▸ hi)
  rwa [List.getD_eq_getElem _ _ hi, List.getD_eq_getElem _ _ hi'] at hget

/-- The array holds the last value and zeros just when there are zeros where it ends. -/
theorem foldl_overlay_eq_padded (hlen : dst.length = n) (h : ∀ v ∈ values, v.length ≤ n) :
    values.foldl overlay dst = padded n (values.getLastD []) ↔
      ∀ i, (values.getLastD []).length ≤ i → i < n → Latest (dst :: values) i 0 := by
  have hfold : (values.foldl overlay dst).length = n := (foldl_overlay_length (hlen ▸ h)).trans hlen
  have hlast : (values.getLastD []).length ≤ n := by
    rcases List.eq_nil_or_concat' values with rfl | ⟨before, v, rfl⟩
    · exact Nat.zero_le n
    · rw [List.getLastD_concat]
      exact h v (List.mem_append_right _ (List.mem_singleton_self v))
  rw [eq_iff_getD hfold (padded_length hlast)]
  constructor
  · intro heq i hge hlt
    have hi := heq i hlt
    rw [padded_getD, List.getD_eq_default _ _ hge] at hi
    exact (foldl_overlay_getD (hlen ▸ hlt)).mp hi
  · intro hzero i hlt
    rw [padded_getD]
    by_cases hi : i < (values.getLastD []).length
    · rcases List.eq_nil_or_concat' values with rfl | ⟨before, v, rfl⟩
      · exact absurd hi (Nat.not_lt_zero i)
      · rw [List.getLastD_concat] at hi ⊢
        rw [List.foldl_append, List.foldl_cons, List.foldl_nil, overlay_getD, if_pos hi]
    · have hi := not_lt.mp hi
      rw [List.getD_eq_default _ _ hi]
      exact (foldl_overlay_getD (hlen ▸ hlt)).mpr (hzero i hi hlt)

/-- The array is as it was just when the values have its bytes. -/
theorem foldl_overlay_eq_self (hlen : dst.length = n) (h : ∀ v ∈ values, v.length ≤ n) :
    values.foldl overlay dst = dst ↔ ∀ i < n, Latest (dst :: values) i (dst.getD i 0) := by
  have hfold : (values.foldl overlay dst).length = n := (foldl_overlay_length (hlen ▸ h)).trans hlen
  rw [eq_iff_getD hfold hlen]
  exact forall₂_congr fun i hi => foldl_overlay_getD (hlen ▸ hi)

end Overlay

/-! ### Memory -/

/-- The memory with the bytes at an offset. -/
def writeAt (memory : Bytes) (offset : ℕ) (bs : Bytes) : Bytes :=
  memory.take offset ++ (bs ++ memory.drop (offset + bs.length))

def slice (memory : Bytes) (offset size : ℕ) : Bytes := (memory.drop offset).take size

section Memory

variable {memory bs : Bytes} {offset size i : ℕ}

lemma writeAt_length (h : offset + bs.length ≤ memory.length) :
    (writeAt memory offset bs).length = memory.length := by
  unfold writeAt
  rw [List.length_append, List.length_append, List.length_take, List.length_drop]
  omega

lemma writeAt_getD (h : offset ≤ memory.length) (bs : Bytes) (i : ℕ) :
    (writeAt memory offset bs).getD i 0 =
      if offset ≤ i ∧ i < offset + bs.length then bs.getD (i - offset) 0 else memory.getD i 0 := by
  have htake : (memory.take offset).length = offset := by
    rw [List.length_take]
    omega
  unfold writeAt
  by_cases hlo : offset ≤ i
  · rw [List.getD_append_right _ _ _ _ (htake.le.trans hlo), htake]
    by_cases hhi : i < offset + bs.length
    · rw [if_pos ⟨hlo, hhi⟩, List.getD_append _ _ _ _ (by omega)]
    · rw [if_neg fun h => hhi h.2, List.getD_append_right _ _ _ _ (by omega), List.getD_eq_getElem?_getD,
        List.getElem?_drop, List.getD_eq_getElem?_getD, show offset + bs.length + (i - offset - bs.length) = i by omega]
  · rw [if_neg fun h => hlo h.1, List.getD_append _ _ _ _ (by omega), List.getD_eq_getElem?_getD,
      List.getElem?_take_of_lt (not_le.mp hlo), List.getD_eq_getElem?_getD]

lemma slice_length (h : offset + size ≤ memory.length) : (slice memory offset size).length = size := by
  unfold slice
  rw [List.length_take, List.length_drop]
  omega

lemma slice_getD (memory : Bytes) (offset : ℕ) (h : i < size) :
    (slice memory offset size).getD i 0 = memory.getD (offset + i) 0 := by
  unfold slice
  rw [List.getD_eq_getElem?_getD, List.getElem?_take_of_lt h, List.getElem?_drop, List.getD_eq_getElem?_getD]

lemma slice_writeAt (h : bs.length ≤ offset) (memory : Bytes) (size : ℕ) :
    slice (writeAt memory 0 bs) offset size = slice memory offset size := by
  unfold slice writeAt
  rw [List.take_zero, List.nil_append, Nat.zero_add, List.drop_append, List.drop_of_length_le h, List.nil_append,
    List.drop_drop, Nat.add_sub_cancel' h]

lemma prefix_slice_writeAt (h : bs.length ≤ size) (memory : Bytes) : bs <+: slice (writeAt memory 0 bs) 0 size := by
  unfold slice writeAt
  rw [List.take_zero, List.nil_append, List.drop_zero]
  exact List.prefix_take_iff.mpr ⟨List.prefix_append _ _, h⟩

/-- A memory that is long enough begins with these bytes just when it has them. -/
lemma prefix_iff_getD (h : bs.length ≤ memory.length) :
    bs <+: memory ↔ ∀ i < bs.length, memory.getD i 0 = bs.getD i 0 := by
  have htake : (memory.take bs.length).length = bs.length := by
    rw [List.length_take]
    omega
  rw [List.prefix_iff_eq_take, eq_iff_getD rfl htake]
  refine forall₂_congr fun i hi => ?_
  have hget : (memory.take bs.length).getD i 0 = memory.getD i 0 := by
    rw [List.getD_eq_getElem?_getD, List.getElem?_take_of_lt hi, List.getD_eq_getElem?_getD]
  rw [hget, eq_comm]

end Memory

end Libaergo.Lib
