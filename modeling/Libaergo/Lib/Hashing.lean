import Mathlib.Data.List.Basic
import Mathlib.Data.List.Range
import Mathlib.Data.Set.Function
import Mathlib.Tactic.Ring

/-!
# Iterated hashing

A compression function `f` takes a state and a block of `n` symbols to the next state, and a text is compressed block
by block.  A hasher that takes the symbols one by one and compresses whenever its buffer is full has compressed the
whole blocks of what it was given, and holds the rest (`foldl_absorb`).

Two messages with the same state at the end have a collision of the compression function between their steps, where
the padding is such that messages with the same last block are equally long (`Strengthening.collides`).
-/

namespace Libaergo.Lib.Hashing

variable {α σ : Type*}

/-! ### Blocks -/

section Blocks

variable {n : ℕ} {as bs xs : List α}

def blocks (n : ℕ) (xs : List α) : List (List α) := (List.range (xs.length / n)).map fun i => (xs.drop (n * i)).take n

@[simp] lemma blocks_length (n : ℕ) (xs : List α) : (blocks n xs).length = xs.length / n := by simp [blocks]

lemma blocks_of_lt (h : xs.length < n) : blocks n xs = [] := by
  rw [← List.length_eq_zero_iff, blocks_length]
  exact Nat.div_eq_of_lt h

lemma blocks_append (hn : 0 < n) (h : n ∣ as.length) (bs : List α) : blocks n (as ++ bs) = blocks n as ++ blocks n bs := by
  obtain ⟨k, hk⟩ := h
  have hfirst : as.length / n = k := by rw [hk, Nat.mul_div_cancel_left k hn]
  have hall : (as ++ bs).length / n = k + bs.length / n := by
    rw [List.length_append, hk, Nat.mul_add_div hn]
  unfold blocks
  rw [hall, hfirst, List.range_add, List.map_append, List.map_map]
  congr 1
  · refine List.map_congr_left fun i hi => ?_
    have hle : n * (i + 1) ≤ as.length := hk ▸ Nat.mul_le_mul_left n (List.mem_range.mp hi)
    rw [Nat.mul_succ] at hle
    rw [List.drop_append_of_le_length (by omega), List.take_append_of_le_length (by rw [List.length_drop]; omega)]
  · refine List.map_congr_left fun i _ => ?_
    have hdrop : n * (k + i) = as.length + n * i := by rw [Nat.mul_add, hk]
    rw [Function.comp_apply, hdrop, List.drop_length_add_append]

lemma blocks_self (hn : 0 < n) (h : xs.length = n) : blocks n xs = [xs] := by
  have hone : xs.length / n = 1 := by rw [h, Nat.div_self hn]
  unfold blocks
  rw [hone, List.range_one, List.map_singleton, Nat.mul_zero, List.drop_zero, List.take_of_length_le h.le]

lemma blocks_flatten (hn : 0 < n) {bss : List (List α)} (h : ∀ block ∈ bss, block.length = n) :
    blocks n bss.flatten = bss := by
  induction bss with
  | nil => exact blocks_of_lt hn
  | cons block bss ih =>
    have hblock := h block List.mem_cons_self
    rw [List.flatten_cons, blocks_append hn (Dvd.intro 1 (by omega)), blocks_self hn hblock,
      ih fun block hmem => h block (List.mem_cons_of_mem _ hmem)]
    rfl

lemma flatten_blocks (hn : 0 < n) (h : n ∣ xs.length) : (blocks n xs).flatten = xs := by
  obtain ⟨k, hk⟩ := h
  induction k generalizing xs with
  | zero =>
    have hnil : xs = [] := List.length_eq_zero_iff.mp hk
    rw [hnil, blocks_of_lt hn]
    rfl
  | succ k ih =>
    rw [Nat.mul_succ] at hk
    have htake : (xs.take n).length = n := by
      rw [List.length_take]
      omega
    have hdrop : (xs.drop n).length = n * k := by
      rw [List.length_drop]
      omega
    have hsplit : blocks n (xs.take n ++ xs.drop n) = blocks n (xs.take n) ++ blocks n (xs.drop n) :=
      blocks_append hn (Dvd.intro 1 (by omega)) _
    rw [List.take_append_drop] at hsplit
    rw [hsplit, blocks_self hn htake, List.flatten_append, ih hdrop, List.flatten_singleton, List.take_append_drop]

def rest (n : ℕ) (xs : List α) : List α := xs.drop (n * (xs.length / n))

lemma rest_of_lt (h : xs.length < n) : rest n xs = xs := by
  rw [rest, Nat.div_eq_of_lt h]
  rfl

lemma rest_length (n : ℕ) (xs : List α) : (rest n xs).length = xs.length % n := by
  rw [rest, List.length_drop]
  have hmod := Nat.div_add_mod xs.length n
  omega

lemma rest_append (hn : 0 < n) (h : n ∣ as.length) (bs : List α) : rest n (as ++ bs) = rest n bs := by
  obtain ⟨k, hk⟩ := h
  have hall : (as ++ bs).length / n = k + bs.length / n := by
    rw [List.length_append, hk, Nat.mul_add_div hn]
  have hdrop : n * (k + bs.length / n) = as.length + n * (bs.length / n) := by rw [Nat.mul_add, hk]
  rw [rest, hall, hdrop, List.drop_length_add_append, rest]

lemma blocks_append_rest (hn : 0 < n) (xs ys : List α) :
    blocks n (xs ++ ys) = blocks n xs ++ blocks n (rest n xs ++ ys) := by
  have hsplit : xs.take (n * (xs.length / n)) ++ rest n xs = xs := List.take_append_drop ..
  have hwhole : n ∣ (xs.take (n * (xs.length / n))).length := by
    rw [List.length_take, min_eq_left (Nat.mul_div_le _ _)]
    exact Nat.dvd_mul_right ..
  have hrest : blocks n (rest n xs) = [] := blocks_of_lt (by rw [rest_length]; exact Nat.mod_lt _ hn)
  have hblocks : blocks n xs = blocks n (xs.take (n * (xs.length / n))) := by
    conv_lhs => rw [← hsplit, blocks_append hn hwhole, hrest, List.append_nil]
  conv_lhs => rw [← hsplit, List.append_assoc, blocks_append hn hwhole, ← hblocks]

lemma getLast?_blocks (hn : 0 < n) (h : n ∣ xs.length) (hne : xs ≠ []) :
    (blocks n xs).getLast? = some (xs.drop (xs.length - n)) := by
  have hle : n ≤ xs.length := Nat.le_of_dvd (List.length_pos_iff.mpr hne) h
  have hwhole : n ∣ (xs.take (xs.length - n)).length := by
    rw [List.length_take, min_eq_left (Nat.sub_le ..)]
    exact Nat.dvd_sub h (dvd_refl n)
  have hlast : (xs.drop (xs.length - n)).length = n := by
    rw [List.length_drop]
    omega
  have hsplit := blocks_append hn hwhole (xs.drop (xs.length - n))
  rw [List.take_append_drop] at hsplit
  rw [hsplit, blocks_self hn hlast, List.getLast?_concat]

end Blocks

/-! ### Absorbing -/

section Absorb

variable (f : σ → List α → σ) (n : ℕ) {as bs : List α}

/-- The state after the whole blocks. -/
def compressAll (s : σ) (xs : List α) : σ := (blocks n xs).foldl f s

/-- One symbol: the buffer is compressed when it is full. -/
def absorb (p : σ × List α) (x : α) : σ × List α :=
  if p.2.length + 1 < n then (p.1, p.2 ++ [x]) else (f p.1 (p.2 ++ [x]), [])

variable {f n}

lemma compressAll_append (hn : 0 < n) (h : n ∣ as.length) (s : σ) (bs : List α) :
    compressAll f n s (as ++ bs) = compressAll f n (compressAll f n s as) bs := by
  rw [compressAll, blocks_append hn h, List.foldl_append, compressAll, compressAll]

/-- **The hasher has compressed the whole blocks, and holds the rest.** -/
theorem foldl_absorb (hn : 0 < n) (s : σ) {buffer : List α} (hb : buffer.length < n) (xs : List α) :
    xs.foldl (absorb f n) (s, buffer) = (compressAll f n s (buffer ++ xs), rest n (buffer ++ xs)) := by
  induction xs generalizing s buffer with
  | nil =>
    rw [List.append_nil, compressAll, blocks_of_lt hb, rest_of_lt hb]
    rfl
  | cons x xs ih =>
    have hsplit : buffer ++ x :: xs = (buffer ++ [x]) ++ xs := by simp
    have hlength : (buffer ++ [x]).length = buffer.length + 1 := by simp
    rw [List.foldl_cons, hsplit]
    by_cases hroom : buffer.length + 1 < n
    · have hstep : absorb f n (s, buffer) x = (s, buffer ++ [x]) := if_pos hroom
      rw [hstep, ih s (by omega)]
    · have hfull : (buffer ++ [x]).length = n := by omega
      have hstep : absorb f n (s, buffer) x = (f s (buffer ++ [x]), []) := if_neg hroom
      have hone : compressAll f n s (buffer ++ [x]) = f s (buffer ++ [x]) := by
        rw [compressAll, blocks_self hn hfull]
        rfl
      have hdvd : n ∣ (buffer ++ [x]).length := by rw [hfull]
      have hempty : ([] : List α).length < n := hn
      rw [hstep, ih _ hempty, List.nil_append, compressAll_append hn hdvd, hone, rest_append hn hdvd]

end Absorb

/-! ### Collisions -/

section Collisions

variable (f : σ → List α → σ)

/-- The steps of a computation: the states, each with the block that is compressed with it. -/
def steps (s : σ) : List (List α) → List (σ × List α)
  | [] => []
  | block :: bss => (s, block) :: steps (f s block) bss

/-- Two steps that differ end in the same state. -/
def Collide (p q : σ × List α) : Prop := p ≠ q ∧ f p.1 p.2 = f q.1 q.2

variable {f} {s s' : σ} {bss bss' : List (List α)} {n : ℕ} {M : Set (List α)} {pad : List α → List α} {m m' : List α}

lemma steps_append (s : σ) (bss bss' : List (List α)) :
    steps f s (bss ++ bss') = steps f s bss ++ steps f (bss.foldl f s) bss' := by
  induction bss generalizing s with
  | nil => rfl
  | cons block bss ih => rw [List.cons_append, steps, ih, steps, List.foldl_cons, List.cons_append]

lemma mem_steps_concat (bss : List (List α)) (block : List α) :
    (bss.foldl f s, block) ∈ steps f s (bss ++ [block]) := by
  induction bss generalizing s with
  | nil => exact List.mem_cons_self
  | cons block' bss ih => exact List.mem_cons_of_mem _ ih

/-- Two computations of the same length that end in one state are one, or have a collision. -/
lemma eq_or_collide (hlen : bss.length = bss'.length) (h : bss.foldl f s = bss'.foldl f s') :
    (s = s' ∧ bss = bss') ∨ ∃ p ∈ steps f s bss, ∃ q ∈ steps f s' bss', Collide f p q := by
  induction bss generalizing s s' bss' with
  | nil =>
    obtain rfl := List.length_eq_zero_iff.mp hlen.symm
    exact .inl ⟨h, rfl⟩
  | cons block bss ih =>
    obtain ⟨block', bss', rfl⟩ := List.exists_cons_of_length_eq_add_one hlen.symm
    rcases ih (Nat.succ.inj hlen) h with ⟨hstate, rfl⟩ | ⟨p, hp, q, hq, hcollide⟩
    · by_cases hsame : (s, block) = (s', block')
      · obtain ⟨rfl, rfl⟩ := Prod.mk.inj hsame
        exact .inl ⟨rfl, rfl⟩
      · exact .inr ⟨_, List.mem_cons_self, _, List.mem_cons_self, hsame, hstate⟩
    · exact .inr ⟨p, List.mem_cons_of_mem _ hp, q, List.mem_cons_of_mem _ hq, hcollide⟩

/-- Two computations whose last blocks differ have one at their end. -/
lemma collide_of_getLast?_ne (hne : bss ≠ []) (hne' : bss' ≠ []) (hlast : bss.getLast? ≠ bss'.getLast?)
    (h : bss.foldl f s = bss'.foldl f s') : ∃ p ∈ steps f s bss, ∃ q ∈ steps f s' bss', Collide f p q := by
  obtain ⟨init, block, rfl⟩ := List.eq_nil_or_concat bss |>.resolve_left hne
  obtain ⟨init', block', rfl⟩ := List.eq_nil_or_concat bss' |>.resolve_left hne'
  simp only [List.concat_eq_append, List.getLast?_concat, List.foldl_append, List.foldl_cons, List.foldl_nil, ne_eq,
    Option.some.injEq] at hlast h ⊢
  refine ⟨_, mem_steps_concat init block, _, mem_steps_concat init' block', fun hsame => ?_, h⟩
  exact hlast (Prod.mk.inj hsame).2

/-- **A padding that strengthens the messages of a set**: the padded texts have whole blocks, are told apart, and the
last block tells how long they are. -/
structure Strengthening (n : ℕ) (M : Set (List α)) (pad : List α → List α) : Prop where
  whole : ∀ m ∈ M, n ∣ (pad m).length
  nonempty : ∀ m ∈ M, pad m ≠ []
  injective : Set.InjOn pad M
  last : ∀ m ∈ M, ∀ m' ∈ M, (blocks n (pad m)).getLast? = (blocks n (pad m')).getLast? →
    (pad m).length = (pad m').length

/-- **Different messages with the same state at the end have a collision between their steps.** -/
theorem Strengthening.collides (h : Strengthening n M pad) (hn : 0 < n) (hm : m ∈ M) (hm' : m' ∈ M) (hne : m ≠ m')
    (heq : compressAll f n s (pad m) = compressAll f n s (pad m')) :
    ∃ p ∈ steps f s (blocks n (pad m)), ∃ q ∈ steps f s (blocks n (pad m')), Collide f p q := by
  have hblocks : ∀ m ∈ M, blocks n (pad m) ≠ [] := by
    intro m hm hnil
    have hflatten := flatten_blocks hn (h.whole m hm)
    rw [hnil] at hflatten
    exact h.nonempty m hm hflatten.symm
  by_cases hlast : (blocks n (pad m)).getLast? = (blocks n (pad m')).getLast?
  · have hlength : (blocks n (pad m)).length = (blocks n (pad m')).length := by
      rw [blocks_length, blocks_length, h.last m hm m' hm' hlast]
    refine (eq_or_collide hlength heq).resolve_left fun hsame => hne (h.injective hm hm' ?_)
    rw [← flatten_blocks hn (h.whole m hm), hsame.2, flatten_blocks hn (h.whole m' hm')]
  · exact collide_of_getLast?_ne (hblocks m hm) (hblocks m' hm') hlast heq

end Collisions

end Libaergo.Lib.Hashing
