import Libaergo.Lib.Chains
import Libaergo.Socket.Completion

/-!
# The list of requests (`linked_list.c`)

`instance->requests` is a singly linked list through the first member of the requests.  `llist_add` walks to its
end, `llist_remove` to the node in front of the one that goes, and the release loop of
`aergo_process_requests__internal` starts again from the beginning after each request that it frees.  The memory
refines the list of the abstract instance: whatever is added and freed, in whatever order, the pointers are a
chain of the requests that are left, in the order in which they were made (`requestList_refines`), and so in
every run of the instance (`World.run_represents`).

The loops are bounded by a number of passes; more passes than acts are always enough.
-/

namespace Libaergo

open Lib

/-! ### The functions -/

/-- `instance->requests`, and the pointer `next` in every node. -/
structure RequestList where
  first : Option ReqId
  next : ReqId → Option ReqId

section Functions

variable (k : ℕ) (l : RequestList)

/-- `while (item->next != 0) item = item->next;`, at most `k` times. -/
def lastItem (next : ReqId → Option ReqId) : ℕ → ReqId → Option ReqId
  | 0, _ => none
  | k + 1, item =>
    match next item with
    | none => some item
    | some item => lastItem next k item

def llistAdd (toAdd : ReqId) : Option RequestList :=
  match l.first with
  | none => some { l with first := some toAdd }
  | some item =>
    (lastItem l.next k item).map fun item => { l with next := Function.update l.next item (some toAdd) }

def llistPrepend (toAdd : ReqId) : RequestList :=
  ⟨some toAdd, Function.update l.next toAdd l.first⟩

/-- The loop of `llist_remove`: the node in front of the one to delete, if there is one. -/
def itemBefore (next : ReqId → Option ReqId) (toDel : ReqId) : ℕ → Option ReqId → Option (Option ReqId)
  | _, none => some none
  | 0, some _ => none
  | k + 1, some item => if next item = some toDel then some (some item) else itemBefore next toDel k (next item)

def llistRemove (toDel : ReqId) : Option RequestList :=
  let removed : Option RequestList :=
    if l.first = some toDel then some { l with first := l.next toDel }
    else (itemBefore l.next toDel k l.first).map fun
      | none => l
      | some item => { l with next := Function.update l.next item (l.next toDel) }
  removed.map fun l => { l with next := Function.update l.next toDel none }

/-- `new_request`, when `malloc` returns this address. -/
def newRequest (request : ReqId) : Option RequestList :=
  llistAdd k { l with next := Function.update l.next request none } request

/-- `free_request`; what `free` leaves in the memory of the node is `junk`. -/
def freeRequest (request : ReqId) (junk : Option ReqId) : Option RequestList :=
  (llistRemove k l request).map fun l => { l with next := Function.update l.next request junk }

variable (heap : ReqId → Request)

/-- The walk of the release loop to the first request that it frees. -/
def findReleasable (next : ReqId → Option ReqId) : ℕ → Option ReqId → Option (Option ReqId)
  | _, none => some none
  | 0, some _ => none
  | k + 1, some request =>
    if (heap request).releasable then some (some request) else findReleasable next k (next request)

/-- The release loop, from `loc_exit`, with at most so many returns to it. -/
def releaseLoop (junk : ReqId → Option ReqId) : ℕ → RequestList → Option RequestList
  | 0, _ => none
  | n + 1, l =>
    match findReleasable heap l.next k l.first with
    | none => none
    | some none => some l
    | some (some request) => (freeRequest k l request (junk request)).bind (releaseLoop junk n)

end Functions

/-! ### The abstract list -/

/-- What happens to the memory of the list: requests are made and freed, the release loop runs, and other memory
is written. -/
inductive ListAct where
  | new (request : ReqId)
  | free (request : ReqId) (junk : Option ReqId)
  | release (heap : ReqId → Request) (junk : ReqId → Option ReqId)
  | write (address : ReqId) (value : Option ReqId)

def RequestList.step (k : ℕ) (l : RequestList) : ListAct → Option RequestList
  | .new request => newRequest k l request
  | .free request junk => freeRequest k l request junk
  | .release heap junk => releaseLoop k heap junk k l
  | .write address value => some { l with next := Function.update l.next address value }

/-- The request is unprocessed, still needs its receipt or is kept active. -/
def Request.Stays (q : Request) : Prop := q.processed = false ∨ q.needReceipt = true ∨ q.keepActive = true

instance (q : Request) : Decidable q.Stays := inferInstanceAs (Decidable (_ ∨ _))

/-- What they do to the list: a new request is appended, a freed one is deleted, and the release loop leaves
those that stay. -/
def ListAct.perform (xs : List ReqId) : ListAct → List ReqId
  | .new request => xs ++ [request]
  | .free request _ => xs.erase request
  | .release heap _ => xs.filter fun r => (heap r).Stays
  | .write _ _ => xs

def ListAct.step (xs : List ReqId) (a : ListAct) : Option (List ReqId) := some (a.perform xs)

/-- `malloc` returns memory that is no node of the list, and other memory is none either. -/
def ListAct.Apart (xs : List ReqId) : ListAct → Prop
  | .new request => request ∉ xs
  | .write address _ => address ∉ xs
  | _ => True

instance (xs : List ReqId) : ∀ a : ListAct, Decidable (a.Apart xs)
  | .new _ => inferInstanceAs (Decidable (_ ∉ _))
  | .write _ _ => inferInstanceAs (Decidable (_ ∉ _))
  | .free _ _ => .isTrue trivial
  | .release _ _ => .isTrue trivial

/-- **The pointers are a list of these requests**: a chain from the first to null, without a node twice. -/
structure RequestList.Represents (l : RequestList) (xs : List ReqId) : Prop where
  chain : Chain l.next l.first xs none
  nodup : xs.Nodup

section Walks

variable {next : ReqId → Option ReqId} {p : Option ReqId} {x z d : ReqId} {xs ys : List ReqId} {k : ℕ}

/-! ### The walks -/

lemma lastItem_chain (h : Chain next (some x) (xs ++ [z]) none) (hk : xs.length < k) :
    lastItem next k x = some z := by
  induction xs generalizing k x with
  | nil =>
    obtain ⟨k, rfl⟩ := Nat.exists_eq_add_one.mpr hk
    obtain ⟨heq, hz⟩ := h
    obtain rfl := Option.some.inj heq
    rw [chain_nil] at hz
    simp only [lastItem, hz]
  | cons y xs ih =>
    obtain ⟨k, rfl⟩ := Nat.exists_eq_add_one.mpr (Nat.zero_lt_of_lt hk)
    obtain ⟨heq, h⟩ := h
    obtain rfl := Option.some.inj heq
    have hk : xs.length < k := Nat.lt_of_succ_lt_succ hk
    cases hx : next x with
    | none =>
      rw [hx] at h
      cases xs <;> cases h.1
    | some y =>
      rw [hx] at h
      simp only [lastItem, hx]
      exact ih h hk

lemma itemBefore_of_not_mem (h : Chain next p xs none) (hd : d ∉ xs) (hk : xs.length ≤ k) :
    itemBefore next d k p = some none := by
  induction xs generalizing k p with
  | nil =>
    obtain rfl : p = none := h
    cases k <;> rfl
  | cons x xs ih =>
    obtain ⟨k, rfl⟩ := Nat.exists_eq_add_one.mpr (Nat.zero_lt_of_lt hk)
    obtain ⟨rfl, h⟩ := h
    have hne : next x ≠ some d := by
      intro hx
      rw [hx] at h
      cases xs with
      | nil => cases h
      | cons y xs =>
        obtain rfl := Option.some.inj h.1
        simp at hd
    rw [itemBefore, if_neg hne]
    exact ih h (fun hx => hd (List.mem_cons_of_mem x hx)) (Nat.le_of_succ_le_succ hk)

lemma itemBefore_middle (h : Chain next p (xs ++ x :: d :: ys) none) (hn : (xs ++ x :: d :: ys).Nodup)
    (hk : xs.length < k) : itemBefore next d k p = some (some x) := by
  induction xs generalizing k p with
  | nil =>
    obtain ⟨k, rfl⟩ := Nat.exists_eq_add_one.mpr hk
    obtain ⟨rfl, hd, -⟩ := h
    rw [itemBefore, if_pos hd]
  | cons y xs ih =>
    obtain ⟨k, rfl⟩ := Nat.exists_eq_add_one.mpr (Nat.zero_lt_of_lt hk)
    obtain ⟨rfl, h⟩ := h
    have hn := (List.nodup_cons.mp hn).2
    have hne : next y ≠ some d := by
      intro hy
      rw [hy] at h
      -- the node behind `y` is the first of these, and `d` is further back
      cases xs with
      | nil =>
        obtain rfl := Option.some.inj h.1
        simp at hn
      | cons z xs =>
        obtain rfl := Option.some.inj h.1
        simp at hn
    rw [itemBefore, if_neg hne]
    exact ih h hn (Nat.lt_of_succ_lt_succ hk)

variable {heap : ReqId → Request}

lemma findReleasable_eq (h : Chain next p xs none) (hk : xs.length ≤ k) :
    findReleasable heap next k p = some (xs.find? fun r => (heap r).releasable) := by
  induction xs generalizing k p with
  | nil =>
    obtain rfl : p = none := h
    cases k <;> rfl
  | cons x xs ih =>
    obtain ⟨k, rfl⟩ := Nat.exists_eq_add_one.mpr (Nat.zero_lt_of_lt hk)
    obtain ⟨rfl, h⟩ := h
    rw [findReleasable, List.find?_cons]
    cases hx : (heap x).releasable with
    | true => rfl
    | false => exact ih h (Nat.le_of_succ_le_succ hk)

end Walks

/-! ### The operations on the list -/

lemma Request.releasable_iff {q : Request} : q.releasable = true ↔ ¬ q.Stays := by
  simp [Request.releasable, Request.Stays, and_assoc]

namespace RequestList.Represents

variable {l : RequestList} {xs : List ReqId} {x : ReqId} {k : ℕ}

lemma write (h : l.Represents xs) (hx : x ∉ xs) (v : Option ReqId) :
    RequestList.Represents { l with next := Function.update l.next x v } xs :=
  ⟨(chain_update hx v).mpr h.chain, h.nodup⟩

/-- `llist_add` appends a node that is not in the list and points to none. -/
lemma llistAdd (h : l.Represents xs) (hx : x ∉ xs) (hnull : l.next x = none) (hk : xs.length ≤ k) :
    ∃ l', Libaergo.llistAdd k l x = some l' ∧ l'.Represents (xs ++ [x]) := by
  have hn : (xs ++ [x]).Nodup := by
    rw [← List.concat_eq_append]
    exact h.nodup.concat hx
  rcases List.eq_nil_or_concat' xs with rfl | ⟨xs, z, rfl⟩
  · have hfirst : l.first = none := h.chain
    refine ⟨{ l with first := some x }, ?_, ⟨rfl, hnull⟩, hn⟩
    rw [Libaergo.llistAdd, hfirst]
  · obtain ⟨y, hfirst⟩ : ∃ y, l.first = some y := by
      have hchain := h.chain
      cases xs with
      | nil => exact ⟨z, hchain.1⟩
      | cons y xs => exact ⟨y, hchain.1⟩
    have hlast : lastItem l.next k y = some z := by
      refine lastItem_chain (hfirst ▸ h.chain) ?_
      rw [List.length_append] at hk
      exact hk
    refine ⟨{ l with next := Function.update l.next z (some x) }, ?_, ?_, hn⟩
    · rw [Libaergo.llistAdd, hfirst]
      dsimp only
      rw [hlast]
      rfl
    · have hz : z ∉ xs := fun hmem => (List.disjoint_of_nodup_append h.nodup) hmem List.mem_cons_self
      have hne : x ≠ z := by
        rintro rfl
        exact hx (List.mem_append_right xs List.mem_cons_self)
      rw [List.append_assoc]
      exact h.chain.append_node hz hnull hne

lemma llistPrepend (h : l.Represents xs) (hx : x ∉ xs) : (Libaergo.llistPrepend l x).Represents (x :: xs) := by
  refine ⟨⟨rfl, ?_⟩, List.nodup_cons.mpr ⟨hx, h.nodup⟩⟩
  have hnext : (Libaergo.llistPrepend l x).next x = l.first := Function.update_self ..
  rw [hnext]
  exact (chain_update hx _).mpr h.chain

/-- `new_request`: the memory from `malloc` is zeroed and appended. -/
lemma newRequest (h : l.Represents xs) (hx : x ∉ xs) (hk : xs.length ≤ k) :
    ∃ l', Libaergo.newRequest k l x = some l' ∧ l'.Represents (xs ++ [x]) :=
  (h.write hx none).llistAdd hx (Function.update_self ..) hk

lemma first_eq_some (h : l.Represents xs) : l.first = some x ↔ ∃ ys, xs = x :: ys := by
  have hchain := h.chain
  cases xs with
  | nil =>
    have hfirst : l.first = none := hchain
    simp [hfirst]
  | cons y ys =>
    rw [hchain.1]
    simp

/-- `llist_remove` deletes a node wherever it is, and does nothing to a list without it. -/
lemma llistRemove (h : l.Represents xs) (x : ReqId) (hk : xs.length ≤ k) :
    ∃ l', Libaergo.llistRemove k l x = some l' ∧ l'.Represents (xs.erase x) := by
  suffices hremoved : ∃ l', (if l.first = some x then some { l with first := l.next x }
      else (itemBefore l.next x k l.first).map fun
        | none => l
        | some item => { l with next := Function.update l.next item (l.next x) }) = some l' ∧
      l'.Represents (xs.erase x) by
    obtain ⟨l', heq, hl'⟩ := hremoved
    refine ⟨{ l' with next := Function.update l'.next x none }, ?_, hl'.write h.nodup.not_mem_erase none⟩
    rw [Libaergo.llistRemove, heq]
    rfl
  by_cases hfirst : l.first = some x
  · obtain ⟨ys, rfl⟩ := h.first_eq_some.mp hfirst
    rw [if_pos hfirst, List.erase_cons_head]
    exact ⟨_, rfl, h.chain.2, (List.nodup_cons.mp h.nodup).2⟩
  rw [if_neg hfirst]
  by_cases hx : x ∈ xs
  · obtain ⟨as, bs, rfl⟩ := List.append_of_mem hx
    -- it is not the first node, so there is one in front of it
    rcases List.eq_nil_or_concat' as with rfl | ⟨as, a, rfl⟩
    · exact absurd (h.first_eq_some.mpr ⟨bs, rfl⟩) hfirst
    have hxs : as ++ [a] ++ x :: bs = as ++ a :: x :: bs := List.append_assoc ..
    have hn := h.nodup
    have hchain := h.chain
    rw [hxs] at hn hchain
    obtain ⟨-, hback, hdisj⟩ := List.nodup_append.mp hn
    have hbefore : itemBefore l.next x k l.first = some (some a) := by
      refine itemBefore_middle hchain hn ?_
      simp only [List.length_append, List.length_cons] at hk
      omega
    have herase : (as ++ [a] ++ x :: bs).erase x = as ++ a :: bs := by
      rw [List.erase_append_right _ fun hmem => ?_, List.erase_cons_head, List.append_assoc, List.cons_append,
        List.nil_append]
      exact List.disjoint_of_nodup_append h.nodup hmem List.mem_cons_self
    have ha : a ∉ as := fun hmem => hdisj a hmem a List.mem_cons_self rfl
    have hbs : a ∉ bs := fun hmem => (List.nodup_cons.mp hback).1 (List.mem_cons_of_mem x hmem)
    refine ⟨{ l with next := Function.update l.next a (l.next x) }, by rw [hbefore]; rfl, ?_, h.nodup.erase x⟩
    rw [herase]
    exact hchain.skip ha hbs
  · rw [itemBefore_of_not_mem h.chain hx hk, List.erase_of_not_mem hx]
    exact ⟨l, rfl, h⟩

lemma freeRequest (h : l.Represents xs) (x : ReqId) (junk : Option ReqId) (hk : xs.length ≤ k) :
    ∃ l', Libaergo.freeRequest k l x junk = some l' ∧ l'.Represents (xs.erase x) := by
  obtain ⟨l', heq, hl'⟩ := h.llistRemove x hk
  refine ⟨{ l' with next := Function.update l'.next x junk }, ?_, hl'.write h.nodup.not_mem_erase junk⟩
  rw [Libaergo.freeRequest, heq]
  rfl

/-- **The release loop ends, and leaves the requests that stay, in their order**: each return to `loc_exit` has
freed one of the others. -/
theorem releaseLoop (heap : ReqId → Request) (junk : ReqId → Option ReqId) {n : ℕ} (h : l.Represents xs)
    (hn : xs.length < n) (hk : xs.length ≤ k) :
    ∃ l', Libaergo.releaseLoop k heap junk n l = some l' ∧ l'.Represents (xs.filter fun r => (heap r).Stays) := by
  induction n generalizing l xs with
  | zero => cases hn
  | succ n ih =>
    rw [Libaergo.releaseLoop, findReleasable_eq h.chain hk]
    cases hfind : xs.find? fun r => (heap r).releasable with
    | none =>
      have hall : ∀ r ∈ xs, (heap r).Stays := by
        intro r hr
        have := List.find?_eq_none.mp hfind r hr
        rwa [Request.releasable_iff, not_not] at this
      refine ⟨l, rfl, ?_⟩
      rw [List.filter_eq_self.mpr fun r hr => decide_eq_true (hall r hr)]
      exact h
    | some x =>
      have hx : x ∈ xs := List.mem_of_find?_eq_some hfind
      have hrel : (heap x).releasable = true := List.find?_some (p := fun r => (heap r).releasable) hfind
      have hgo : ¬ (heap x).Stays := Request.releasable_iff.mp hrel
      obtain ⟨l', heq, hl'⟩ := h.freeRequest x (junk x) hk
      have hlen : (xs.erase x).length < xs.length := by
        rw [List.length_erase_of_mem hx]
        exact Nat.sub_one_lt (List.length_pos_of_mem hx).ne'
      have hfilter : (xs.erase x).filter (fun r => (heap r).Stays) = xs.filter fun r => (heap r).Stays := by
        rw [h.nodup.erase_eq_filter, List.filter_filter]
        refine List.filter_congr fun r _ => ?_
        by_cases hr : r = x
        · simp [hr, hgo]
        · simp [hr]
      dsimp only
      rw [heq, Option.bind_some, ← hfilter]
      exact ih hl' (hlen.trans_le (Nat.le_of_lt_succ hn)) (hlen.le.trans hk)

theorem step {a : ListAct} (h : l.Represents xs) (ha : a.Apart xs) (hk : xs.length < k) :
    ∃ l', l.step k a = some l' ∧ l'.Represents (a.perform xs) := by
  cases a with
  | new x => exact h.newRequest ha hk.le
  | free x junk => exact h.freeRequest x junk hk.le
  | release heap junk => exact h.releaseLoop heap junk hk hk.le
  | write x v => exact ⟨_, rfl, h.write ha v⟩

end RequestList.Represents

/-! ### Runs -/

section Runs

variable {acts : List ListAct} {xs : List ReqId} {k : ℕ}

lemma run_perform : run ListAct.step xs acts = some (acts.foldl ListAct.perform xs) := by
  induction acts generalizing xs with
  | nil => rfl
  | cons a acts ih => exact ih

lemma ListAct.length_perform (a : ListAct) : (a.perform xs).length ≤ xs.length + 1 := by
  cases a with
  | new x => exact (List.length_append ..).le
  | free x junk => exact List.length_erase_le.trans (Nat.le_succ _)
  | release heap junk => exact (List.length_filter_le ..).trans (Nat.le_succ _)
  | write x v => exact Nat.le_succ _

/-- The memory goes on as the list does. -/
theorem RequestList.Represents.run {l : RequestList} (h : l.Represents xs)
    (hacts : Every ListAct.step ListAct.Apart xs acts) (hk : xs.length + acts.length ≤ k) :
    ∃ l', Lib.run (RequestList.step k) l acts = some l' ∧ l'.Represents (acts.foldl ListAct.perform xs) := by
  have hroom : Every ListAct.step (fun xs _ => xs.length < k) xs acts := by
    refine every_lt_of_length (fun xs a xs' hxs => ?_) hk
    obtain rfl := Option.some.inj hxs
    exact a.length_perform
  refine run_simulates (R := RequestList.Represents) (fun l xs a xs' hl ha hxs => ?_) h (hacts.and hroom) run_perform
  obtain rfl := Option.some.inj hxs
  exact hl.step ha.1 ha.2

/-- **The list of requests is what was appended and not deleted**: whatever the memory held at first, after any
sequence of requests made, requests freed (those no longer in the list as well), release loops and writes to other
memory, all of which end, the pointers are a chain of the requests that are left, in their order and without a
node twice, and those are the nodes that are reached. -/
theorem requestList_refines (memory : ReqId → Option ReqId) (acts : List ListAct)
    (hacts : Every ListAct.step ListAct.Apart [] acts) (k : ℕ) (hk : acts.length ≤ k) :
    ∃ l, run (RequestList.step k) ⟨none, memory⟩ acts = some l ∧ l.Represents (acts.foldl ListAct.perform []) ∧
      ∀ r, Reaches l.next l.first r ↔ r ∈ acts.foldl ListAct.perform [] := by
  have h : RequestList.Represents ⟨none, memory⟩ [] := ⟨rfl, List.nodup_nil⟩
  obtain ⟨l, hrun, hl⟩ := h.run hacts (k := k) (by simpa using hk)
  exact ⟨l, hrun, hl, fun r => hl.chain.reaches_iff⟩

/-- Three requests; the one in the middle is freed, and freed again after its memory was used anew; of the others
the first is released. -/
theorem requestList_refines_middle :
    let heap := fun r => { Request.blank .transfer with processed := r == 1 }
    let acts : List ListAct :=
      [.new 1, .new 2, .new 3, .free 2 (some 9), .write 2 (some 3), .free 2 none, .release heap fun _ => none]
    ∃ l, run (RequestList.step 7) ⟨none, some⟩ acts = some l ∧ l.Represents [3] ∧
      ∀ r, Reaches l.next l.first r ↔ r ∈ [3] :=
  requestList_refines some _ (by decide) 7 le_rfl

end Runs

/-! ### The list of the instance -/

section Instance

variable {E : Env} {w w' : World}

lemma World.release_requests (junk : ReqId → Option ReqId) :
    w.release.requests = (ListAct.release w.heap junk).perform w.requests := by
  refine List.filter_congr fun r _ => ?_
  by_cases hr : (w.heap r).Stays
  · have : (w.heap r).releasable = false := by
      rw [← Bool.not_eq_true, Request.releasable_iff, not_not]
      exact hr
    simp [hr, this]
  · simp [hr, Request.releasable_iff.mpr hr]

/-- What an act of the instance does to the memory of the list, when `free` leaves this junk. -/
def World.listAct (w : World) (junk : ReqId → Option ReqId) : Act → Option ListAct
  | .call c => if c.start = .noRequest then none else some (.new w.next)
  | .checkReceipts start =>
    if w.wantingReceipt = none ∨ start = .noRequest then none else some (.new w.next)
  | .exit => some (.release w.heap junk)
  | _ => none

/-- The memory of the list and the instance side by side. -/
def World.stepList (E : Env) (junk : ReqId → Option ReqId) (k : ℕ) (s : RequestList × World) (a : Act) :
    Option (RequestList × World) :=
  (s.2.step E a).bind fun w' =>
    match s.2.listAct junk a with
    | none => some (s.1, w')
    | some b => (s.1.step k b).map fun l => (l, w')

/-- A step changes the list as its act does, and a new request is not in the list. -/
lemma World.step_listAct {a : Act} (ho : w.Ok) (h : w.step E a = some w') (junk : ReqId → Option ReqId) :
    (∀ b ∈ w.listAct junk a, b.Apart w.requests) ∧
      w'.requests = (w.listAct junk a).elim w.requests (ListAct.perform w.requests) := by
  have hfresh : w.next ∉ w.requests := fun hmem => lt_irrefl _ (ho.requests_lt _ hmem)
  have hnew : ∀ {p : Prop} [Decidable p],
      (∀ b ∈ (if p then none else some (ListAct.new w.next)), b.Apart w.requests) ∧
      (if p then w.requests else w.requests ++ [w.next]) =
        (if p then none else some (ListAct.new w.next)).elim w.requests (ListAct.perform w.requests) := by
    intro p _
    split
    · exact ⟨nofun, rfl⟩
    · refine ⟨fun b hb => ?_, rfl⟩
      obtain rfl := Option.some.inj hb
      exact hfresh
  rw [step_requests_eq h]
  cases a with
  | call c => exact hnew
  | checkReceipts start => exact hnew
  | exit =>
    refine ⟨fun b hb => ?_, w.release_requests junk⟩
    obtain rfl := Option.some.inj hb
    trivial
  | _ => exact ⟨nofun, rfl⟩

/-- **The memory holds the list of the instance** in every state that it reaches. -/
theorem World.run_represents {as : List Act} {receipts : ℕ → TransactionReceipt} {accounts : ℕ → AccountState}
    (h : run (World.step E) (World.start receipts accounts) as = some w) (memory : ReqId → Option ReqId)
    (junk : ReqId → Option ReqId) :
    ∃ l : RequestList, run (World.stepList E junk as.length) (⟨none, memory⟩, World.start receipts accounts) as =
      some (l, w) ∧ l.Represents w.requests := by
  have hroom : Every (World.step E) (fun w _ => w.requests.length < as.length) (.start receipts accounts) as := by
    refine every_lt_of_length (fun w a w' hw => ?_) (Nat.zero_add _).le
    rw [step_requests_eq hw]
    cases a with
    | call c => dsimp only; split <;> simp
    | checkReceipts start => dsimp only; split <;> simp
    | exit => exact (List.length_filter_le ..).trans (Nat.le_succ _)
    | _ => exact Nat.le_succ _
  have hstep : ∀ (s : RequestList × World) (w : World) (a : Act) (w' : World),
      s.2 = w ∧ w.Ok ∧ s.1.Represents w.requests → w.requests.length < as.length → w.step E a = some w' →
      ∃ s', World.stepList E junk as.length s a = some s' ∧ s'.2 = w' ∧ w'.Ok ∧ s'.1.Represents w'.requests := by
    rintro ⟨l, w⟩ v a w' ⟨rfl, ho, hl⟩ hk hw
    obtain ⟨hapart, hreq⟩ := World.step_listAct ho hw junk
    unfold World.stepList
    dsimp only at hl hk hw hapart hreq ⊢
    rw [hw, Option.bind_some]
    cases hact : w.listAct junk a with
    | none =>
      rw [hact] at hreq
      exact ⟨_, rfl, rfl, ho.step hw, hreq ▸ hl⟩
    | some b =>
      rw [hact] at hreq
      obtain ⟨l', hl', hrep⟩ := hl.step (hapart b hact) hk
      dsimp only
      rw [hl']
      exact ⟨_, rfl, rfl, ho.step hw, hreq ▸ hrep⟩
  have h0 : RequestList.Represents ⟨none, memory⟩ [] := ⟨rfl, List.nodup_nil⟩
  obtain ⟨⟨l, w'⟩, hrun, rfl, -, hl⟩ := run_simulates hstep
    (s := (⟨none, memory⟩, World.start receipts accounts)) ⟨rfl, World.Ok.start _ _, h0⟩ hroom h
  exact ⟨l, hrun, hl⟩

end Instance

end Libaergo
