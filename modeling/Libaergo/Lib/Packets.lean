import Mathlib.Data.List.Basic
import Mathlib.Data.Nat.Notation
import Mathlib.Tactic.Ring

/-!
# Texts in packets

A text is cut into blocks of `c` elements, the last of which may be shorter, and every block has a head in front of
it that may depend on its number.  `packets head c i text` is the stream of these packets, the first of which has
the number `i`.  Where all heads have one length, the whole packets at the front of the stream are the packets of
the text's blocks (`take_packets`).
-/

namespace Libaergo.Lib

section Packets

variable {α : Type*} (head : ℕ → List α) (c : ℕ)

/-- The packets of a text, from this number on. -/
def packets (i : ℕ) (text : List α) : List α :=
  if _h : text = [] ∨ c = 0 then [] else head i ++ (text.take c ++ packets (i + 1) (text.drop c))
termination_by text.length
decreasing_by
  obtain ⟨hne, hc⟩ := not_or.mp _h
  have hpos := List.length_pos_of_ne_nil hne
  rw [List.length_drop]
  omega

/-- The number of the packets of a text of this length. -/
def packetCount (n : ℕ) : ℕ := (n + (c - 1)) / c

variable {head c} {i h k : ℕ} {text a b s : List α}

@[simp] lemma packets_nil : packets head c i [] = [] := by
  rw [packets, dif_pos (.inl rfl)]

lemma packets_of_ne_nil (hc : 0 < c) (hne : text ≠ []) :
    packets head c i text = head i ++ (text.take c ++ packets head c (i + 1) (text.drop c)) := by
  rw [packets, dif_neg (not_or.mpr ⟨hne, hc.ne'⟩)]

lemma packetCount_zero (hc : 0 < c) : packetCount c 0 = 0 := by
  unfold packetCount
  exact Nat.div_eq_of_lt (by omega)

lemma packetCount_pos {n : ℕ} (hc : 0 < c) (hn : 0 < n) : packetCount c n = packetCount c (n - c) + 1 := by
  unfold packetCount
  rcases Nat.lt_or_ge n c with hlt | hge
  · rw [Nat.sub_eq_zero_of_le hlt.le, Nat.zero_add, Nat.div_eq_of_lt (show c - 1 < c by omega),
      show n + (c - 1) = n - 1 + c by omega, Nat.add_div_right _ hc, Nat.div_eq_of_lt (by omega)]
  · rw [show n + (c - 1) = n - c + (c - 1) + c by omega, Nat.add_div_right _ hc]

/-- **The text and a head for each of its blocks.** -/
lemma packets_length (hc : 0 < c) (hhead : ∀ i, (head i).length = h) (i : ℕ) (text : List α) :
    (packets head c i text).length = text.length + h * packetCount c text.length := by
  generalize hn : text.length = n
  induction n using Nat.strong_induction_on generalizing i text with
  | _ n ih =>
    by_cases hne : text = []
    · subst hne
      obtain rfl : 0 = n := hn
      rw [packets_nil, packetCount_zero hc, List.length_nil, Nat.mul_zero]
    · have hpos : 0 < n := hn ▸ List.length_pos_of_ne_nil hne
      have hrest := ih (n - c) (by omega) (i + 1) (text.drop c) (by rw [List.length_drop, hn])
      rw [packets_of_ne_nil hc hne, List.length_append, List.length_append, hrest, hhead, List.length_take, hn,
        packetCount_pos hc hpos, Nat.mul_succ]
      omega

/-- **The packets of the first blocks are the first packets.** -/
lemma take_packets (hc : 0 < c) (hhead : ∀ i, (head i).length = h) (k i : ℕ) (text : List α) :
    (packets head c i text).take (k * (h + c)) = packets head c i (text.take (k * c)) := by
  induction k generalizing i text with
  | zero => rw [Nat.zero_mul, Nat.zero_mul, List.take_zero, List.take_zero, packets_nil]
  | succ k ih =>
    by_cases hne : text = []
    · rw [hne, packets_nil, List.take_nil, List.take_nil, packets_nil]
    · have hne' : text.take ((k + 1) * c) ≠ [] := by
        rw [Ne, List.take_eq_nil_iff, not_or]
        exact ⟨(Nat.mul_pos (Nat.succ_pos k) hc).ne', hne⟩
      have hmul : (k + 1) * c = c + k * c := by ring
      have hsum : (k + 1) * (h + c) = h + (c + k * (h + c)) := by ring
      have hfirst : (text.take ((k + 1) * c)).take c = text.take c := by
        rw [List.take_take, Nat.min_eq_left (by omega)]
      have hrest : (text.take ((k + 1) * c)).drop c = (text.drop c).take (k * c) := by
        rw [hmul, List.drop_take, Nat.add_sub_cancel_left]
      rw [packets_of_ne_nil hc hne, packets_of_ne_nil hc hne', hfirst, hrest, ← ih, hsum, ← hhead i,
        List.take_length_add_append]
      congr 1
      rcases Nat.lt_or_ge text.length c with hlt | hge
      -- the only block
      · rw [List.drop_of_length_le hlt.le, packets_nil, List.take_nil, List.append_nil,
          List.take_of_length_le (by rw [List.length_take]; omega)]
      · have hlen : (text.take c).length = c := by
          rw [List.length_take]
          omega
        rw [List.take_append, List.take_of_length_le (by omega), hlen, hhead, Nat.add_sub_cancel_left]

end Packets

end Libaergo.Lib
