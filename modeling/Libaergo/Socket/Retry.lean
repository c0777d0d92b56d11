import Libaergo.Socket.Outermost

/-!
# The retries of a receipt

`loc_check_receipts` marks the transaction whose receipt it fetches, and only the answer to the fetch takes
the mark away: `on_failed_receipt` to have the receipt fetched again, while attempts are left, and
`handle_receipt_response` for good.  Where no transfer brings two answers, the flags of the transaction and
its counter therefore say how many fetches there were and whether one is under way.
-/

namespace Libaergo

open Lib

variable {E : Env} {w w' : World} {a : Act} {r c x : ReqId} {m text : Bytes}

/-! ### One answer for each transfer -/

/-- The request whose transfer delivers the answer. -/
def Act.answered : Act → Option ReqId
  | .error r _ => some r
  | .message r _ => some r
  | _ => none

/-- No transfer delivers two answers. -/
def AnsweredOnce (as : List Act) : Prop := (as.filterMap Act.answered).Nodup

instance (as : List Act) : Decidable (AnsweredOnce as) := by
  unfold AnsweredOnce
  infer_instance

/-- The act answers no request that was answered before. -/
def World.Unanswered (w : World) (a : Act) : Prop :=
  ∀ x, a.answered = some x → (w.heap x).processed = false

namespace World

/-- An answer to another request leaves the flag `processed` as it is. -/
lemma processed_of_ne (ho : w.Ok) (hx : r ≠ x) (m text : Bytes) :
    ((processMessage E w x m).heap r).processed = (w.heap r).processed ∧
      ((processRequestError w x text).heap r).processed = (w.heap r).processed := by
  by_cases hp : (w.heap x).parent = some r
  · obtain ⟨hh, he, -⟩ := ho.child_fields hp
    refine ⟨by rw [processMessage_settles hh hp hx], ?_⟩
    by_cases ht : txNotFound (((w.heap x).errorMsg.or (some text)).getD []) = true ∧
        (w.heap r).receiptAttempts + 1 < 10
    · rw [(processRequestError_retry he hp hx ht.1 ht.2).2]
    · exact (processRequestError_giveUp he hp hx ht).2.1
  · rw [(Within.processMessage E w x m).frame r hx hp, (Within.processRequestError w x text).frame r hx hp]
    exact ⟨rfl, rfl⟩

lemma call_processed (c : Call) (hx : ((w.call c).heap x).processed = true) :
    (w.heap x).processed = true := by
  by_cases hxn : x = w.next
  · subst hxn
    have hnew : ((w.newRequest c.request).heap w.next).processed = true → (w.heap w.next).processed = true := by
      rw [newRequest_heap_next]
      exact nofun
    have h := w.called c
    generalize w.call c = v at h hx
    cases h with
    | noRequest => exact hx
    | noHandle => exact hnew hx
    | async => exact hnew hx
    | inside => exact hnew hx
    | waits => exact hnew hx
  · rwa [call_heap_ne w c hxn] at hx

lemma markReceipt_processed (p : ReqId) :
    ((w.markReceipt p).heap x).processed = (w.heap x).processed := by
  by_cases hxp : x = p
  · subst hxp
    rw [markReceipt_heap_self]
  · rw [markReceipt_heap_ne _ _ hxp]

lemma giveUpReceipt_processed (p : ReqId) :
    ((w.giveUpReceipt p).heap x).processed = (w.heap x).processed := by
  by_cases hxp : x = p
  · subst hxp
    rw [giveUpReceipt_heap_self]
  · rw [giveUpReceipt_heap_ne _ _ hxp]

lemma makeFetch_processed (p : ReqId) (hx : ((w.makeFetch p).heap x).processed = true) :
    (w.heap x).processed = true := by
  by_cases hxn : x = w.next
  · subst hxn
    rw [makeFetch_heap_next] at hx
    cases hx
  · rwa [makeFetch_heap_of_ne_next _ _ hxn, markReceipt_processed] at hx

lemma checkReceipts_processed (start : Start) (hx : ((w.checkReceipts start).heap x).processed = true) :
    (w.heap x).processed = true := by
  have h := w.checked start
  generalize w.checkReceipts start = v at h hx
  cases h with
  | nothing => exact hx
  | noRequest p hr hs => rwa [giveUpReceipt_processed, markReceipt_processed] at hx
  | noHandle p hr hs =>
    rw [giveUpReceipt_processed] at hx
    exact makeFetch_processed p hx
  | async p accepted hr hs hc => exact makeFetch_processed p hx
  | nested p accepted hr hs hc => exact makeFetch_processed p hx

/-- **A request is processed by its answer.** -/
theorem step_processed (ho : w.Ok) (h : w.step E a = some w') (hx : (w'.heap x).processed = true) :
    (w.heap x).processed = true ∨ a.answered = some x := by
  cases a <;> simp only [World.step, Option.ite_none_right_eq_some, Option.some.injEq] at h <;>
    obtain ⟨-, rfl⟩ := h
  case call c => exact .inl (call_processed c hx)
  case process =>
    unfold World.process at hx
    split at hx <;> exact .inl hx
  case error y text =>
    by_cases hy : x = y
    · exact .inr (congrArg some hy.symm)
    · rw [(processed_of_ne (E := E) ho hy [] text).2] at hx
      exact .inl hx
  case message y m =>
    by_cases hy : x = y
    · exact .inr (congrArg some hy.symm)
    · rw [(processed_of_ne ho hy m []).1] at hx
      exact .inl hx
  case curl ok =>
    split at hx
    · exact .inl hx
    · rcases w.leave_heap x with h | ⟨-, h⟩ <;> rw [h] at hx <;> exact .inl hx
  case checkReceipts start => exact .inl (checkReceipts_processed start hx)
  case checkMain =>
    have h := w.mainChecked E
    generalize w.checkMain E = v at h hx
    left
    cases h with
    | noMain => exact hx
    | settled f m => exact (touch_heap w m .main) ▸ hx
    | waits f m => exact (touch_heap w m .main) ▸ hx
    | ends f m => exact (touch_heap w m .main) ▸ hx
  case exit =>
    rcases w.release.leave_heap x with h | ⟨-, h⟩ <;> rw [h] at hx <;> exact .inl hx
  all_goals exact .inl hx

/-- **Where no transfer delivers two answers, each answer finds its request unanswered.** -/
theorem every_unanswered {as : List Act} (ho : w.Ok) (hn : AnsweredOnce as)
    (hw : ∀ x ∈ as.filterMap Act.answered, (w.heap x).processed = false) :
    Every (World.step E) World.Unanswered w as := by
  induction as generalizing w with
  | nil => trivial
  | cons a as ih =>
    have hsub : (as.filterMap Act.answered).Sublist ((a :: as).filterMap Act.answered) :=
      (List.sublist_cons_self a as).filterMap _
    have hhead : ∀ x, a.answered = some x → x ∈ (a :: as).filterMap Act.answered :=
      fun x hx => List.mem_filterMap.mpr ⟨a, List.mem_cons_self, hx⟩
    refine ⟨fun x hx => hw x (hhead x hx), fun w' hs => ?_⟩
    refine ih (ho.step hs) (hn.sublist hsub) fun x hx => ?_
    by_contra hp
    rcases step_processed ho hs (by simpa using hp) with hp | ha
    · rw [hw x (hsub.subset hx)] at hp
      cases hp
    · -- the same request would be answered again
      unfold AnsweredOnce at hn
      rw [List.filterMap_cons_some ha] at hn
      exact (List.nodup_cons.mp hn).1 hx

/-! ### The fetches of a transaction -/

/-- The transfer of the request is under way, and no answer has come through it. -/
def InFlight (w : World) (x : ReqId) : Prop := x ∈ w.attached ∧ (w.heap x).processed = false

/-- The `GetReceipt` requests made for a transaction. -/
def fetches (w : World) (r : ReqId) : List ReqId :=
  (List.range w.next).filter fun x => (w.heap x).parent = some r

/-- No more than so many fetches were made for the transaction. -/
def FetchedAtMost (w : World) (r : ReqId) (n : ℕ) : Prop :=
  ∀ xs : List ReqId, xs.Nodup → (∀ x ∈ xs, (w.heap x).parent = some r) → xs.length ≤ n

lemma FetchedAtMost.fetches {n : ℕ} (h : w.FetchedAtMost r n) : (w.fetches r).length ≤ n := by
  apply h
  · exact List.nodup_range.filter _
  · intro x hx
    simpa using (List.mem_filter.mp hx).2

lemma FetchedAtMost.mono {n k : ℕ} (h : w.FetchedAtMost r n) (hn : n ≤ k)
    (hnew : ∀ x, (w'.heap x).parent = some r → (w.heap x).parent = some r) : w'.FetchedAtMost r k :=
  fun xs hxs hp => (h xs hxs fun x hx => hnew x (hp x hx)).trans hn

lemma FetchedAtMost.succ {n : ℕ} (h : w.FetchedAtMost r n)
    (hnew : ∀ x, (w'.heap x).parent = some r → (w.heap x).parent = some r ∨ x = c) :
    w'.FetchedAtMost r (n + 1) := by
  intro xs hxs hp
  have hrest : (xs.erase c).length ≤ n := by
    apply h _ (hxs.erase c)
    intro x hx
    obtain ⟨hne, hx⟩ := hxs.mem_erase_iff.mp hx
    exact (hnew x (hp x hx)).resolve_right hne
  have hlen := List.le_length_erase (a := c) (l := xs)
  omega

/-! ### The stages of a transaction -/

/-- The transaction has no answer, and its receipt is not asked for. -/
structure Untried (w : World) (r : ReqId) : Prop where
  listed : r ∈ w.requests
  unanswered : (w.heap r).processed = false
  unneeded : (w.heap r).needReceipt = false
  unmarked : (w.heap r).processingReceipt = false
  untried : (w.heap r).receiptAttempts = 0
  childless : ∀ x, (w.heap x).parent ≠ some r

/-- The receipt is to be fetched, and every fetch so far was an attempt that failed. -/
structure Retrying (w : World) (r : ReqId) : Prop where
  listed : r ∈ w.requests
  processed : (w.heap r).processed = true
  need : (w.heap r).needReceipt = true
  tried : (w.heap r).receiptAttempts < 10
  fetched : w.FetchedAtMost r (w.heap r).receiptAttempts
  landed : ∀ x, (w.heap x).parent = some r → ¬ w.InFlight x

/-- The receipt is being fetched by the request `c`, or was lost by its transfer. -/
structure Trying (w : World) (r c : ReqId) : Prop where
  listed : r ∈ w.requests
  processed : (w.heap r).processed = true
  need : (w.heap r).needReceipt = true
  marked : (w.heap r).processingReceipt = true
  tried : (w.heap r).receiptAttempts < 10
  fetched : w.FetchedAtMost r ((w.heap r).receiptAttempts + 1)
  child : (w.heap c).parent = some r
  landed : ∀ x, (w.heap x).parent = some r → w.InFlight x → x = c

/-- The receipt is not asked for any more. -/
structure Over (w : World) (r : ReqId) : Prop where
  processed : (w.heap r).processed = true
  settled : (w.heap r).needReceipt = false
  fetched : w.FetchedAtMost r 10
  landed : ∀ x, (w.heap x).parent = some r → ¬ w.InFlight x

/-- The transaction is at the stage; here a transfer may also be refused, or end without an answer. -/
def RetryAt (w : World) (r : ReqId) : Stage → Prop
  | .waiting => w.Untried r
  | .wanting => w.Retrying r
  | .fetching c => w.Trying r c
  | .complete => w.Over r

/-- What leaves a transaction as it is, and attaches none of its fetches, leaves it at its stage. -/
lemma RetryAt.undisturbed {s : Stage} (h : w.RetryAt r s) (hu : Undisturbed r w w')
    (hatt : ∀ x, (w.heap x).parent = some r → x ∈ w'.attached → x ∈ w.attached) : w'.RetryAt r s := by
  have hfly : ∀ x, (w'.heap x).parent = some r → w'.InFlight x → (w.heap x).parent = some r ∧ w.InFlight x := by
    rintro x hx ⟨hax, hpx⟩
    have hx' := hu.new x hx
    rw [hu.old x hx'] at hpx
    exact ⟨hx', hatt x hx' hax, hpx⟩
  cases s with
  | waiting =>
    have hrel := Request.not_releasable_of_unanswered h.unanswered
    refine ⟨hu.requests r (.inl rfl) hrel h.listed, ?_, ?_, ?_, ?_, fun x hx => h.childless x (hu.new x hx)⟩
    all_goals rw [hu.self]
    · exact h.unanswered
    · exact h.unneeded
    · exact h.unmarked
    · exact h.untried
  | wanting =>
    refine ⟨hu.requests r (.inl rfl) (Request.not_releasable_of_need h.need) h.listed, ?_, ?_, ?_, ?_,
      fun x hx hf => h.landed x (hfly x hx hf).1 (hfly x hx hf).2⟩
    all_goals rw [hu.self]
    · exact h.processed
    · exact h.need
    · exact h.tried
    · exact h.fetched.mono le_rfl hu.new
  | fetching c =>
    refine ⟨hu.requests r (.inl rfl) (Request.not_releasable_of_need h.need) h.listed, ?_, ?_, ?_, ?_, ?_,
      ?_, fun x hx hf => h.landed x (hfly x hx hf).1 (hfly x hx hf).2⟩
    · rw [hu.self]
      exact h.processed
    · rw [hu.self]
      exact h.need
    · rw [hu.self]
      exact h.marked
    · rw [hu.self]
      exact h.tried
    · rw [hu.self]
      exact h.fetched.mono le_rfl hu.new
    · rw [hu.old c h.child]
      exact h.child
  | complete =>
    refine ⟨?_, ?_, h.fetched.mono le_rfl hu.new,
      fun x hx hf => h.landed x (hfly x hx hf).1 (hfly x hx hf).2⟩
    all_goals rw [hu.self]
    · exact h.processed
    · exact h.settled

/-- The end of a transfer leaves the stage, with or without an answer. -/
lemma RetryAt.done {s : Stage} (h : w.RetryAt r s) (y : ReqId) : (w.done y).RetryAt r s := by
  have hfly : ∀ x, (w.done y).InFlight x → w.InFlight x := fun x hx => ⟨List.mem_of_mem_erase hx.1, hx.2⟩
  cases s with
  | waiting => exact ⟨h.listed, h.unanswered, h.unneeded, h.unmarked, h.untried, h.childless⟩
  | wanting =>
    exact ⟨h.listed, h.processed, h.need, h.tried, h.fetched, fun x hx hf => h.landed x hx (hfly x hf)⟩
  | fetching c =>
    exact ⟨h.listed, h.processed, h.need, h.marked, h.tried, h.fetched, h.child,
      fun x hx hf => h.landed x hx (hfly x hf)⟩
  | complete => exact ⟨h.processed, h.settled, h.fetched, fun x hx hf => h.landed x hx (hfly x hf)⟩

lemma RetryAt.atMost {s : Stage} (h : w.RetryAt r s) : w.FetchedAtMost r 10 := by
  cases s with
  | waiting =>
    intro xs _ hp
    cases xs with
    | nil => exact Nat.zero_le _
    | cons x xs => exact absurd (hp x List.mem_cons_self) (h.childless x)
  | wanting => exact h.fetched.mono (Nat.le_of_lt h.tried) fun _ hx => hx
  | fetching c => exact h.fetched.mono h.tried fun _ hx => hx
  | complete => exact h.fetched

lemma RetryAt.trying {s : Stage} (h : w.RetryAt r s) (hx : (w.heap x).parent = some r)
    (hf : w.InFlight x) : s = .fetching x := by
  cases s with
  | waiting => exact absurd hx (h.childless x)
  | wanting => exact absurd hf (h.landed x hx)
  | fetching c => rw [h.landed x hx hf]
  | complete => exact absurd hf (h.landed x hx)

lemma RetryAt.eq_waiting {s : Stage} (h : w.RetryAt r s) (hp : (w.heap r).processed = false) :
    s = .waiting := by
  cases s with
  | waiting => rfl
  | wanting => exact nomatch hp.symm.trans h.processed
  | fetching c => exact nomatch hp.symm.trans h.processed
  | complete => exact nomatch hp.symm.trans h.processed

/-- Only a transaction whose receipt is to be fetched is found by `loc_check_receipts`. -/
lemma RetryAt.eq_wanting {s : Stage} (h : w.RetryAt r s) (hw : (w.heap r).wantsReceipt = true) :
    s = .wanting := by
  obtain ⟨hp, -, hn, hm⟩ := wantsReceipt_iff.mp hw
  cases s with
  | waiting => exact nomatch hp.symm.trans h.unanswered
  | wanting => rfl
  | fetching c => exact nomatch hm.symm.trans h.marked
  | complete => exact nomatch hn.symm.trans h.settled

/-! ### From stage to stage -/

/-- A transaction that is answered has its receipt fetched, or is over. -/
lemma Untried.answered (hw : w.Untried r) (h : Within r w w') {q : Request} (hq : w'.heap r = q)
    (hp : q.processed = true) (ht : q.receiptAttempts = 0) : ∃ s, w'.RetryAt r s := by
  have hchildless : ∀ x, (w'.heap x).parent ≠ some r := by
    intro x hx
    rw [Request.fixed_parent (h.fixed x)] at hx
    exact hw.childless x hx
  have hfetched : ∀ n, w'.FetchedAtMost r n := by
    intro n xs _ hxs
    cases xs with
    | nil => exact Nat.zero_le _
    | cons x xs => exact absurd (hxs x List.mem_cons_self) (hchildless x)
  cases hn : q.needReceipt with
  | true =>
    refine ⟨.wanting, by rw [h.requests]; exact hw.listed, ?_, ?_, ?_, hfetched _,
      fun x hx => absurd hx (hchildless x)⟩
    · rw [hq]
      exact hp
    · rw [hq]
      exact hn
    · rw [hq, ht]
      decide
  | false =>
    refine ⟨.complete, ?_, ?_, hfetched _, fun x hx => absurd hx (hchildless x)⟩
    · rw [hq]
      exact hp
    · rw [hq]
      exact hn

section Answered

variable (hw : w.Trying r c) (h : Within c w w') (hc : (w'.heap c).processed = true)

include hw h hc

lemma Trying.landed_all (hx : (w'.heap x).parent = some r) : ¬ w'.InFlight x := by
  rintro ⟨hatt, hp⟩
  have hatt' : x ∈ w.attached := by rwa [show w'.attached = w.attached from congrArg Loop.attached h.loop] at hatt
  have hp' : (w.heap x).processed = false := by
    by_contra hn
    rw [h.processed x (by simpa using hn)] at hp
    cases hp
  rw [Request.fixed_parent (h.fixed x)] at hx
  obtain rfl := hw.landed x hx ⟨hatt', hp'⟩
  rw [hc] at hp
  cases hp

lemma Trying.over (hp : (w'.heap r).processed = (w.heap r).processed)
    (hn : (w'.heap r).needReceipt = false) : w'.Over r := by
  refine ⟨hp.trans hw.processed, hn, hw.fetched.mono hw.tried fun x hx => ?_, fun x hx => hw.landed_all h hc hx⟩
  rwa [Request.fixed_parent (h.fixed x)] at hx

lemma Trying.retry (ha : (w.heap r).receiptAttempts + 1 < 10)
    (hr : w'.heap r = { w.heap r with
      receiptAttempts := (w.heap r).receiptAttempts + 1
      processingReceipt := false }) : w'.Retrying r := by
  refine ⟨by rw [h.requests]; exact hw.listed, ?_, ?_, ?_, ?_, fun x hx => hw.landed_all h hc hx⟩
  all_goals rw [hr]
  · exact hw.processed
  · exact hw.need
  · exact ha
  · refine hw.fetched.mono le_rfl fun x hx => ?_
    rwa [Request.fixed_parent (h.fixed x)] at hx

end Answered

lemma makeFetch_children (hr : (w.heap r).parent = none) (hx : ((w.makeFetch r).heap x).parent = some r) :
    (w.heap x).parent = some r ∨ x = w.next := by
  by_cases hxn : x = w.next
  · exact .inr hxn
  · left
    rw [makeFetch_heap_of_ne_next _ _ hxn] at hx
    by_cases hxr : x = r
    · subst hxr
      rw [markReceipt_heap_self] at hx
      exact nomatch hr.symm.trans hx
    · rwa [markReceipt_heap_ne _ _ hxr] at hx

lemma Retrying.checkReceipts (ho : w.Ok) (hw : w.Retrying r) (hcb : (w.heap r).callback ≠ none)
    (hr : w.wantingReceipt = some r) (start : Start) : ∃ s, (w.checkReceipts start).RetryAt r s := by
  have hlt : r < w.next := ho.requests_lt r hw.listed
  have hparent := ho.parent_of_need hw.need
  have hself : (w.makeFetch r).heap r = { w.heap r with processingReceipt := true } :=
    (makeFetch_heap_of_ne_next _ _ hlt.ne).trans (markReceipt_heap_self ..)
  have hnew : ∀ x, ((w.makeFetch r).heap x).parent = some r → (w.heap x).parent = some r ∨ x = w.next :=
    fun x => makeFetch_children hparent
  have hgive : ∀ v : World, ∀ x, ((v.giveUpReceipt r).heap x).parent = (v.heap x).parent :=
    fun v x => Request.fixed_parent (modify_fixed (f := fun q => { q with needReceipt := false }) (fun _ => rfl) x)
  -- what is in flight was so before, or is the new request
  have hland : ∀ x, ((w.makeFetch r).heap x).parent = some r → x ∈ w.attached →
      ((w.makeFetch r).heap x).processed = false → False := by
    intro x hx hatt hp
    have hxn : x ≠ w.next := (ho.attached_lt x hatt).ne
    rw [makeFetch_heap_of_ne_next _ _ hxn, markReceipt_processed] at hp
    exact hw.landed x ((hnew x hx).resolve_right hxn) ⟨hatt, hp⟩
  have h := w.checked start
  generalize w.checkReceipts start = v at h ⊢
  cases h with
  | nothing hn => exact nomatch hn.symm.trans hr
  | noRequest p hp hs =>
    obtain rfl := Option.some.inj (hr.symm.trans hp)
    have hold : ∀ x, ((w.markReceipt r).giveUpReceipt r |>.heap x).parent = (w.heap x).parent := fun x =>
      (hgive _ x).trans (Request.fixed_parent (modify_fixed (f := fun q => { q with processingReceipt := true })
        (fun _ => rfl) x))
    refine ⟨.complete, ?_, ?_, ?_, ?_⟩
    · rw [giveUpReceipt_processed, markReceipt_processed]
      exact hw.processed
    · rw [giveUpReceipt_heap_self]
    · exact hw.fetched.mono (Nat.le_of_lt hw.tried) fun x hx => (hold x).symm.trans hx
    · rintro x hx ⟨hatt, hp⟩
      rw [giveUpReceipt_processed, markReceipt_processed] at hp
      exact hw.landed x ((hold x).symm.trans hx) ⟨hatt, hp⟩
  | noHandle p hp hs =>
    obtain rfl := Option.some.inj (hr.symm.trans hp)
    refine ⟨.complete, ?_, ?_, ?_, ?_⟩
    · rw [giveUpReceipt_processed, hself]
      exact hw.processed
    · rw [giveUpReceipt_heap_self]
    · have hone : (w.makeFetch r).FetchedAtMost r ((w.heap r).receiptAttempts + 1) := hw.fetched.succ hnew
      exact hone.mono hw.tried fun x hx => (hgive _ x).symm.trans hx
    · rintro x hx ⟨hatt, hp⟩
      rw [giveUpReceipt_processed] at hp
      exact hland x ((hgive _ x).symm.trans hx) hatt hp
  | async p accepted hp hs hc =>
    obtain rfl := Option.some.inj (hr.symm.trans hp)
    refine ⟨.fetching w.next, List.mem_append_left _ hw.listed, ?_, ?_, ?_, ?_, ?_, ?_, ?_⟩
    · exact (congrArg Request.processed hself).trans hw.processed
    · exact (congrArg Request.needReceipt hself).trans hw.need
    · exact congrArg Request.processingReceipt hself
    · exact (congrArg Request.receiptAttempts hself).trans_lt hw.tried
    · have hone : (w.makeFetch r).FetchedAtMost r ((w.heap r).receiptAttempts + 1) := hw.fetched.succ hnew
      exact hone.mono (congrArg (Request.receiptAttempts · + 1) hself).ge fun _ hx => hx
    · exact congrArg Request.parent (makeFetch_heap_next ..)
    · rintro x hx ⟨hatt, hp⟩
      by_contra hxn
      have hatt' : x ∈ w.attached := by
        rcases addHandle_attached (w := w.makeFetch r) w.next accepted with h | h <;> rw [h] at hatt
        · exact hatt
        · exact (List.mem_cons.mp hatt).resolve_left hxn
      exact hland x hx hatt' hp
  | nested p accepted hp hs hc =>
    obtain rfl := Option.some.inj (hr.symm.trans hp)
    exact absurd hc hcb

lemma step_attached (h : w.step E a = some w') (hx : x ∈ w'.attached) : x ∈ w.attached ∨ x = w.next := by
  have hsent : ∀ (v : World) (accepted : Bool), v.attached = w.attached →
      x ∈ (v.addHandle w.next accepted).attached → x ∈ w.attached ∨ x = w.next := by
    intro v accepted hv hx
    rcases addHandle_attached (w := v) w.next accepted with h | h <;> rw [h, hv] at hx
    · exact .inl hx
    · exact (List.mem_cons.mp hx).symm
  cases a <;> simp only [World.step, Option.ite_none_right_eq_some, Option.some.injEq] at h <;>
    obtain ⟨-, rfl⟩ := h
  case call c =>
    have h := w.called c
    generalize w.call c = v at h hx
    cases h with
    | noRequest => exact .inl hx
    | noHandle => exact .inl hx
    | async accepted => exact hsent (w.newRequest c.request) accepted rfl hx
    | inside accepted => exact hsent (w.newRequest c.request) accepted rfl hx
    | waits accepted => exact hsent (w.newRequest c.request) accepted rfl hx
  case process =>
    unfold World.process at hx
    split at hx <;> exact .inl hx
  case error y text =>
    have hatt : (processRequestError w y text).attached = w.attached :=
      congrArg Loop.attached (Within.processRequestError w y text).loop
    exact .inl (hatt ▸ hx)
  case message y m =>
    have hatt : (processMessage E w y m).attached = w.attached :=
      congrArg Loop.attached (Within.processMessage E w y m).loop
    exact .inl (hatt ▸ hx)
  case curl ok =>
    split at hx
    · exact .inl hx
    · exact .inl (w.leave_attached ▸ hx)
  case done y => exact .inl (List.mem_of_mem_erase hx)
  case checkReceipts start =>
    have h := w.checked start
    generalize w.checkReceipts start = v at h hx
    cases h with
    | nothing => exact .inl hx
    | noRequest => exact .inl hx
    | noHandle => exact .inl hx
    | async p accepted => exact hsent (w.makeFetch p) accepted rfl hx
    | nested p accepted => exact hsent (w.makeFetch p) accepted rfl hx
  case checkMain =>
    have hatt : (w.checkMain E).attached = w.attached := congrArg Loop.attached checkMain_loop
    exact .inl (hatt ▸ hx)
  case exit => exact .inl (w.release.leave_attached ▸ hx)
  all_goals exact .inl hx

/-- An asynchronous transfer, contract call or multicall. -/
structure AsyncTransaction (w : World) (r : ReqId) : Prop where
  made : r < w.next
  callback : (w.heap r).callback ≠ none
  transaction : (w.heap r).processResponse.IsTransaction

lemma AsyncTransaction.parent (ho : w.Ok) (ht : w.AsyncTransaction r) : (w.heap r).parent = none := by
  by_contra hp
  obtain ⟨p, hp⟩ := Option.ne_none_iff_exists'.mp hp
  have h := ht.transaction
  rw [(ho.child_fields hp).1] at h
  rcases h with h | h <;> cases h

lemma RetryAt.message {s : Stage} (ho : w.Ok) (ht : w.AsyncTransaction r) (hw : w.RetryAt r s)
    (hx : w.callOf x = r) (hatt : x ∈ w.attached) (hun : (w.heap x).processed = false) :
    ∃ s, (processMessage E w x m).RetryAt r s := by
  have hwithin := Within.processMessage E w x m
  rcases (callOf_eq (ht.parent ho)).mp hx with rfl | hchild
  · obtain rfl := hw.eq_waiting hun
    obtain ⟨accepted, hheap⟩ := processMessage_transaction (E := E) (m := m) ht.transaction
    exact hw.answered hwithin hheap rfl hw.untried
  · obtain rfl := hw.trying hchild ⟨hatt, hun⟩
    have hrx : r ≠ x := by
      rintro rfl
      exact nomatch (ht.parent ho).symm.trans hchild
    have hheap := processMessage_settles (E := E) (m := m) (ho.child_fields hchild).1 hchild hrx
    refine ⟨.complete, hw.over hwithin processMessage_processed ?_ ?_⟩ <;> rw [hheap]

lemma RetryAt.error {s : Stage} (ho : w.Ok) (ht : w.AsyncTransaction r) (hw : w.RetryAt r s)
    (hx : w.callOf x = r) (hatt : x ∈ w.attached) (hun : (w.heap x).processed = false) :
    ∃ s, (processRequestError w x text).RetryAt r s := by
  have hwithin := Within.processRequestError w x text
  have hproc : ((processRequestError w x text).heap x).processed = true := processRequestError_processed
  rcases (callOf_eq (ht.parent ho)).mp hx with rfl | hchild
  · obtain rfl := hw.eq_waiting hun
    -- a transaction has no error handler
    have hnone : (w.heap x).processError = none := by
      by_contra he
      exact ho.errors x he ht.transaction
    have hheap := congrArg (World.heap · x) (processRequestError_of_none text hnone)
    rw [failing_heap_self] at hheap
    exact hw.answered hwithin hheap rfl hw.untried
  · obtain rfl := hw.trying hchild ⟨hatt, hun⟩
    have hrx : r ≠ x := by
      rintro rfl
      exact nomatch (ht.parent ho).symm.trans hchild
    obtain ⟨-, hh, -⟩ := ho.child_fields hchild
    by_cases htx : txNotFound (((w.heap x).errorMsg.or (some text)).getD []) = true ∧
        (w.heap r).receiptAttempts + 1 < 10
    · obtain ⟨-, hheap⟩ := processRequestError_retry hh hchild hrx htx.1 htx.2
      exact ⟨.wanting, hw.retry hwithin hproc htx.2 hheap⟩
    · obtain ⟨hneed, hproc', -⟩ := processRequestError_giveUp hh hchild hrx htx
      exact ⟨.complete, hw.over hwithin hproc hproc' hneed⟩

/-- **No step leaves the stages**, if it answers no request twice. -/
theorem RetryAt.step {s : Stage} (ho : w.Ok) (ht : w.AsyncTransaction r) (hw : w.RetryAt r s)
    (ha : w.Unanswered a) (h : w.step E a = some w') : ∃ s, w'.RetryAt r s := by
  have hp := ht.parent ho
  have hsync : ¬ w.FailsFor r := by
    rintro ⟨f, c, -, -, hc, rfl⟩
    exact ht.callback (ho.callers c (List.mem_of_mem_head? hc)).2.1
  have hapart : w.Apart r a → ∃ s, w'.RetryAt r s := by
    intro hapart
    refine ⟨s, hw.undisturbed (undisturbed_step ho ht.made hp hapart h) fun x hx hatt => ?_⟩
    exact (step_attached h hatt).resolve_right (ho.child_lt hx).ne
  cases a with
  | message x m =>
    by_cases hx : w.callOf x = r
    · simp only [World.step, Option.ite_none_right_eq_some, Option.some.injEq] at h
      obtain ⟨hpc, rfl⟩ := h
      exact hw.message ho ht hx hpc.2.1 (ha x rfl)
    · exact hapart hx
  | error x text =>
    by_cases hx : w.callOf x = r
    · simp only [World.step, Option.ite_none_right_eq_some, Option.some.injEq] at h
      obtain ⟨hpc, rfl⟩ := h
      exact hw.error ho ht hx hpc.2 (ha x rfl)
    · exact hapart hx
  | checkReceipts start =>
    by_cases hwant : w.wantingReceipt = some r
    · simp only [World.step, Option.ite_none_right_eq_some, Option.some.injEq] at h
      obtain ⟨-, rfl⟩ := h
      obtain rfl := hw.eq_wanting (wantingReceipt_eq_some hwant).2
      exact hw.checkReceipts ho ht.callback hwant start
    · exact hapart hwant
  | done x =>
    simp only [World.step, Option.ite_none_right_eq_some, Option.some.injEq] at h
    obtain ⟨-, rfl⟩ := h
    exact ⟨s, hw.done x⟩
  | curl ok => exact hapart fun _ hf => absurd hf hsync
  | exit => exact hapart fun hf => absurd hf hsync
  | call c => exact hapart trivial
  | process => exact hapart trivial
  | enter => exact hapart trivial
  | infoEnd => exact hapart trivial
  | checkMain => exact hapart trivial

lemma Untried.of_made (ho : w.Ok) (hr : w.next ≤ r) (ht : w'.AsyncTransaction r)
    (h : w.step E a = some w') : w'.Untried r := by
  have hmade := ht.made
  have hparent := ht.parent (ho.step h)
  have hlast : ∀ v : World, v.next = w.next + 1 → r < v.next → r = w.next := by
    intro v hv hlt
    rw [hv] at hlt
    exact Nat.le_antisymm (Nat.le_of_lt_succ hlt) hr
  rcases step_next_eq h with hnext | ⟨c, rfl⟩ | ⟨start, rfl⟩
  · rw [hnext] at hmade
    exact absurd hr (not_le.mpr hmade)
  · simp only [World.step, Option.ite_none_right_eq_some, Option.some.injEq] at h
    obtain ⟨-, rfl⟩ := h
    have hother := fun x => call_heap_ne w c (x := x)
    have h := w.called c
    generalize w.call c = v at h hmade hother ⊢
    have hnew : v.heap w.next = c.request → v.requests = w.requests ++ [w.next] → v.next = w.next + 1 →
        v.Untried r := by
      intro hself hreq hnext
      obtain rfl := hlast v hnext hmade
      refine ⟨by simp [hreq], ?_, ?_, ?_, ?_, fun x hx => ?_⟩
      · rw [hself]; rfl
      · rw [hself]; rfl
      · rw [hself]; rfl
      · rw [hself]; rfl
      · by_cases hxn : x = w.next
        · rw [hxn, hself] at hx
          cases hx
        · rw [hother x hxn] at hx
          exact (ho.child x _ hx).1.false
    cases h with
    | noRequest => exact absurd hr (not_le.mpr hmade)
    | noHandle => exact hnew (newRequest_heap_next ..) rfl rfl
    | async => exact hnew (newRequest_heap_next ..) rfl rfl
    | inside => exact hnew (newRequest_heap_next ..) rfl rfl
    | waits => exact hnew (newRequest_heap_next ..) rfl rfl
  · simp only [World.step, Option.ite_none_right_eq_some, Option.some.injEq] at h
    obtain ⟨-, rfl⟩ := h
    have h := w.checked start
    generalize w.checkReceipts start = v at h hmade hparent
    have hfetch : ∀ p, ((w.makeFetch p).heap w.next).parent = some p :=
      fun p => congrArg Request.parent (makeFetch_heap_next ..)
    cases h with
    | nothing => exact absurd hr (not_le.mpr hmade)
    | noRequest => exact absurd hr (not_le.mpr hmade)
    | noHandle p hp =>
      obtain rfl := hlast (w.makeFetch p) rfl hmade
      have hne : w.next ≠ p := (ho.requests_lt p (wantingReceipt_eq_some hp).1).ne'
      rw [giveUpReceipt_heap_ne _ _ hne] at hparent
      cases hparent.symm.trans (hfetch p)
    | async p =>
      obtain rfl := hlast (w.makeFetch p) rfl hmade
      cases hparent.symm.trans (hfetch p)
    | nested p =>
      obtain rfl := hlast (w.makeFetch p) rfl hmade
      cases hparent.symm.trans (hfetch p)

/-- What holds of an instance and the transaction while no transfer delivers two answers. -/
structure Retried (r : ReqId) (w : World) : Prop where
  ok : w.Ok
  unused : w.next ≤ r → (.parent, r) ∉ w.uses
  course : w.AsyncTransaction r → (∃ s, w.RetryAt r s) ∧ (.parent, r) ∉ w.uses

lemma Retried.uses (hw : w.Retried r) (ha : w.Unanswered a) (ht : w.AsyncTransaction r)
    (h : w.step E a = some w') : (.parent, r) ∉ w'.uses := by
  intro hu
  obtain ⟨⟨s, hs⟩, hold⟩ := hw.course ht
  have hlisted : ∀ x ∈ w.attached, (w.heap x).parent = some r → (w.heap x).processed = false →
      r ∈ w.requests := by
    intro x hatt hx hun
    obtain rfl := hs.trying hx ⟨hatt, hun⟩
    exact hs.listed
  rcases step_uses h hu with hu | hu
  · exact hold hu
  · cases hu with
    | errorParent hx hp hr => exact hr (hlisted _ hx hp (ha _ rfl))
    | messageParent hx hp hr => exact hr (hlisted _ hx hp (ha _ rfl))

/-- **Every step that answers no request twice keeps the protocol.** -/
theorem Retried.step (hw : w.Retried r) (ha : w.Unanswered a) (h : w.step E a = some w') :
    w'.Retried r := by
  have ho := hw.ok
  -- a fetch is no older than its transaction
  have hunused : w.next ≤ r → (.parent, r) ∉ w'.uses := by
    intro hr hu
    rcases step_uses h hu with hu | hu
    · exact hw.unused hr hu
    · cases hu with
      | errorParent hx hp => exact absurd (ho.child _ _ hp).1 (not_lt.mpr hr)
      | messageParent hx hp => exact absurd (ho.child _ _ hp).1 (not_lt.mpr hr)
  refine ⟨ho.step h, fun hr => hunused ((step_next h).1.trans hr), fun ht => ?_⟩
  rcases lt_or_ge r w.next with hlt | hr
  · have hfixed := step_fixed h hlt
    have ht' : w.AsyncTransaction r := by
      refine ⟨hlt, ?_, ?_⟩
      · rw [← Request.fixed_callback hfixed]
        exact ht.callback
      · rw [← Request.fixed_processResponse hfixed]
        exact ht.transaction
    obtain ⟨⟨s, hs⟩, -⟩ := hw.course ht'
    exact ⟨hs.step ho ht' ha h, hw.uses ha ht' h⟩
  · exact ⟨⟨.waiting, .of_made ho hr ht h⟩, hunused hr⟩

end World

variable {receipts : ℕ → TransactionReceipt} {accounts : ℕ → AccountState}

/-- **The receipt of an asynchronous transaction is fetched at most ten times, one fetch at a time**, and
while a fetch is unanswered its transaction is there, wants the receipt, and is marked. -/
theorem receipt_fetched_in_turn {as : List Act}
    (h : run (World.step E) (.start receipts accounts) as = some w) (hn : AnsweredOnce as)
    (ht : w.AsyncTransaction r) :
    (w.fetches r).length ≤ 10 ∧
      (∀ x ∈ w.fetches r, ∀ y ∈ w.fetches r, w.InFlight x → w.InFlight y → x = y) ∧
      (∀ x ∈ w.fetches r, w.InFlight x → r ∈ w.requests ∧ (w.heap r).needReceipt = true ∧
        (w.heap r).processingReceipt = true) ∧
      (.parent, r) ∉ w.uses := by
  have hstart : (World.start receipts accounts).Retried r :=
    ⟨.start receipts accounts, fun _ hu => (nomatch hu), fun ht => absurd ht.made (Nat.not_lt_zero r)⟩
  have hevery : Every (World.step E) World.Unanswered (.start receipts accounts) as :=
    World.every_unanswered (.start receipts accounts) hn fun _ _ => rfl
  have hw := run_invariant (fun w a w' hw ha h => hw.step ha h) hstart hevery h
  obtain ⟨⟨s, hs⟩, huses⟩ := hw.course ht
  have hchild : ∀ x ∈ w.fetches r, (w.heap x).parent = some r :=
    fun x hx => by simpa using (List.mem_filter.mp hx).2
  refine ⟨hs.atMost.fetches, fun x hx y hy hfx hfy => ?_, fun x hx hf => ?_, huses⟩
  · have hsx := hs.trying (hchild x hx) hfx
    have hsy := hs.trying (hchild y hy) hfy
    exact Stage.fetching.inj (hsx.symm.trans hsy)
  · obtain rfl := hs.trying (hchild x hx) hf
    exact ⟨hs.listed, hs.need, hs.marked⟩

/-- A transfer is accepted, and its receipt is not found at the first attempt. -/
def notFoundAtFirst : List Act :=
  [.call asyncTransfer, .process, .enter, .message 0 acceptedAnswer, .curl true, .done 0, .infoEnd,
   .checkReceipts (.sent true), .checkReceipts .noRequest, .checkMain, .exit,
   .process, .enter, .error 1 txNotFoundText, .curl true, .done 1, .infoEnd,
   .checkReceipts (.sent true), .checkReceipts .noRequest]

theorem receipt_fetched_in_turn_notFoundAtFirst :
    ∃ w, run (World.step sampleEnv) newInstance notFoundAtFirst = some w ∧ w.fetches 0 = [1, 2] ∧
      w.InFlight 2 ∧ (w.fetches 0).length ≤ 10 ∧ (.parent, 0) ∉ w.uses := by
  have h : ∃ w, run (World.step sampleEnv) newInstance notFoundAtFirst = some w ∧
      w.AsyncTransaction 0 ∧ w.fetches 0 = [1, 2] ∧ w.InFlight 2 :=
    ⟨_, rfl, ⟨by decide, nofun, .inl rfl⟩, by decide, by decide, rfl⟩
  obtain ⟨w, h, ht, hfetches, hflight⟩ := h
  obtain ⟨hten, -, -, huses⟩ := receipt_fetched_in_turn h (by decide) ht
  exact ⟨w, h, hfetches, hflight, hten, huses⟩

end Libaergo
