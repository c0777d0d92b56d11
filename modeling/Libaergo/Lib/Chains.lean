import Mathlib.Data.List.Nodup
import Mathlib.Logic.Function.Basic

/-!
# Chains of pointers

A memory has a pointer behind every node, which may be null.  `Chain next p xs q` says that the pointers lead
from `p` through the nodes `xs` to `q`; a list in the memory is a chain to null of different nodes.  What is
written to a node outside a chain does not touch it (`chain_update`), and the nodes of a chain to null are those
that are reached (`Chain.reaches_iff`).
-/

namespace Libaergo.Lib

variable {α : Type*} {next next' : α → Option α} {p q : Option α} {x y : α} {xs ys : List α}

/-- The pointers lead from `p` through these nodes to `q`. -/
def Chain (next : α → Option α) : Option α → List α → Option α → Prop
  | p, [], q => p = q
  | p, x :: xs, q => p = some x ∧ Chain next (next x) xs q

/-- The pointers lead from `p` to this node. -/
inductive Reaches (next : α → Option α) : Option α → α → Prop
  | here (x : α) : Reaches next (some x) x
  | step (x : α) (y : α) (h : Reaches next (next x) y) : Reaches next (some x) y

@[simp] lemma chain_nil : Chain next p [] q ↔ p = q := Iff.rfl

lemma chain_cons : Chain next p (x :: xs) q ↔ p = some x ∧ Chain next (next x) xs q := Iff.rfl

lemma chain_append : Chain next p (xs ++ ys) q ↔ ∃ m, Chain next p xs m ∧ Chain next m ys q := by
  induction xs generalizing p with
  | nil =>
    constructor
    · intro h
      exact ⟨p, rfl, h⟩
    · rintro ⟨m, rfl, h⟩
      exact h
  | cons x xs ih =>
    rw [List.cons_append, chain_cons, ih]
    constructor
    · rintro ⟨hp, m, hxs, hys⟩
      exact ⟨m, ⟨hp, hxs⟩, hys⟩
    · rintro ⟨m, ⟨hp, hxs⟩, hys⟩
      exact ⟨hp, m, hxs, hys⟩

lemma chain_middle : Chain next p (xs ++ x :: ys) q ↔ Chain next p xs (some x) ∧ Chain next (next x) ys q := by
  rw [chain_append]
  constructor
  · rintro ⟨m, hxs, rfl, hys⟩
    exact ⟨hxs, hys⟩
  · rintro ⟨hxs, hys⟩
    exact ⟨some x, hxs, rfl, hys⟩

lemma chain_congr (h : ∀ x ∈ xs, next' x = next x) : Chain next' p xs q ↔ Chain next p xs q := by
  induction xs generalizing p with
  | nil => exact Iff.rfl
  | cons x xs ih =>
    rw [chain_cons, chain_cons, h x List.mem_cons_self, ih fun y hy => h y (List.mem_cons_of_mem x hy)]

lemma chain_update [DecidableEq α] (h : x ∉ xs) (v : Option α) :
    Chain (Function.update next x v) p xs q ↔ Chain next p xs q := by
  refine chain_congr fun y hy => Function.update_of_ne ?_ _ _
  rintro rfl
  exact h hy

lemma Chain.append_node [DecidableEq α] (h : Chain next p (xs ++ [x]) none) (hx : x ∉ xs) (hy : next y = none)
    (hne : y ≠ x) : Chain (Function.update next x (some y)) p (xs ++ [x, y]) none := by
  obtain ⟨hxs, -⟩ := chain_middle.mp h
  refine chain_middle.mpr ⟨(chain_update hx _).mpr hxs, Function.update_self .., ?_⟩
  rw [Function.update_of_ne hne]
  exact hy

lemma Chain.skip [DecidableEq α] (h : Chain next p (xs ++ x :: y :: ys) q) (hxs : x ∉ xs) (hys : x ∉ ys) :
    Chain (Function.update next x (next y)) p (xs ++ x :: ys) q := by
  obtain ⟨hfront, -, hback⟩ := chain_middle.mp h
  refine chain_middle.mpr ⟨(chain_update hxs _).mpr hfront, ?_⟩
  rw [Function.update_self]
  exact (chain_update hys _).mpr hback

/-- **The nodes of a chain to null are those that are reached.** -/
theorem Chain.reaches_iff (h : Chain next p xs none) : Reaches next p y ↔ y ∈ xs := by
  constructor
  · intro hy
    induction hy generalizing xs with
    | here x =>
      cases xs with
      | nil => cases h
      | cons z xs =>
        obtain rfl := Option.some.inj h.1
        exact List.mem_cons_self
    | step x y _ ih =>
      cases xs with
      | nil => cases h
      | cons z xs =>
        obtain ⟨heq, h⟩ := h
        obtain rfl := Option.some.inj heq
        exact List.mem_cons_of_mem x (ih h)
  · intro hy
    induction xs generalizing p with
    | nil => cases hy
    | cons x xs ih =>
      obtain ⟨rfl, h⟩ := h
      rcases List.mem_cons.mp hy with rfl | hy
      · exact .here y
      · exact .step x y (ih h hy)

end Libaergo.Lib
