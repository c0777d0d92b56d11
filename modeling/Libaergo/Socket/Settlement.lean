import Libaergo.Socket.Outermost

/-!
# What becomes of a synchronous transaction

The call returns the success of the transaction, and the receipt of the caller is written by the rejection
of the transaction and by the messages that answer the fetches of its receipt.  What is seen in the end
was brought about by the last of these, if no other request has the same receipt and the node answers the
transaction with one message.
-/

namespace Libaergo

open Lib

/-! ### What happens to a transaction -/

section Acts

variable (E : Env) (r : ReqId) (ptr : ℕ)

/-- The node rejects the transaction `r`, with a detail. -/
def World.Rejects (_ : World) : Act → Prop
  | .message x m =>
    x = r ∧ (E.codec.commit m).any (fun response => response.error ≠ 0 ∧ response.detail.isSome) = true
  | _ => False

/-- A fetch of the receipt of `r`, which was accepted, is answered with a `Receipt`. -/
def World.Brings (w : World) : Act → Prop
  | .message x m =>
    (w.heap x).parent = some r ∧ (w.heap r).success = true ∧ (E.codec.receipt m).toBool = true
  | _ => False

/-- A message for the transaction `r` or for a fetch of its receipt, or for another request with the
receipt at `ptr`. -/
def World.Answers (w : World) : Act → Prop
  | .message x _ => w.callOf x = r ∨ (w.heap x).returnPtr = some ptr
  | _ => False

/-- No failure of libcurl comes under the call that the program waits for. -/
def World.Uninterrupted (w : World) : Act → Prop
  | .curl ok => ok = true ∨ w.callers ≠ []
  | _ => True

/-- Some call is running. -/
def World.Busy (w : World) (_ : Act) : Prop := w.running.isSome = true

/-- A message for the transaction `r` comes only while it is unanswered. -/
def World.AnswersOnce (w : World) : Act → Prop
  | .message x _ => x = r → (w.heap r).processed = false
  | _ => True

/-- No call is made with the receipt at `ptr`. -/
def Act.Spares : Act → Prop
  | .call c => c.returnPtr ≠ some ptr
  | _ => True

end Acts

section Decidable

variable {E : Env} {r : ReqId} {ptr : ℕ} (w : World) (a : Act)

instance : Decidable (w.Rejects E r a) :=
  match a with
  | .message x m =>
    inferInstanceAs (Decidable (x = r ∧
      (E.codec.commit m).any (fun response => response.error ≠ 0 ∧ response.detail.isSome) = true))
  | .call _ | .process | .enter | .error _ _ | .curl _ | .done _
  | .infoEnd | .checkReceipts _ | .checkMain | .exit => .isFalse id

instance : Decidable (w.Brings E r a) :=
  match a with
  | .message x m =>
    inferInstanceAs (Decidable ((w.heap x).parent = some r ∧ (w.heap r).success = true ∧
      (E.codec.receipt m).toBool = true))
  | .call _ | .process | .enter | .error _ _ | .curl _ | .done _
  | .infoEnd | .checkReceipts _ | .checkMain | .exit => .isFalse id

instance : Decidable (w.Answers r ptr a) :=
  match a with
  | .message x _ => inferInstanceAs (Decidable (w.callOf x = r ∨ (w.heap x).returnPtr = some ptr))
  | .call _ | .process | .enter | .error _ _ | .curl _ | .done _
  | .infoEnd | .checkReceipts _ | .checkMain | .exit => .isFalse id

instance : Decidable (w.Uninterrupted a) :=
  match a with
  | .curl ok => inferInstanceAs (Decidable (ok = true ∨ w.callers ≠ []))
  | .call _ | .process | .enter | .error _ _ | .message _ _ | .done _
  | .infoEnd | .checkReceipts _ | .checkMain | .exit => .isTrue trivial

instance : Decidable (w.Busy a) := by
  unfold World.Busy
  infer_instance

instance : Decidable (w.AnswersOnce r a) :=
  match a with
  | .message x _ => inferInstanceAs (Decidable (x = r → (w.heap r).processed = false))
  | .call _ | .process | .enter | .error _ _ | .curl _ | .done _
  | .infoEnd | .checkReceipts _ | .checkMain | .exit => .isTrue trivial

instance : Decidable (a.Spares ptr) :=
  match a with
  | .call c => inferInstanceAs (Decidable (c.returnPtr ≠ some ptr))
  | .process | .enter | .error _ _ | .message _ _ | .curl _ | .done _
  | .infoEnd | .checkReceipts _ | .checkMain | .exit => .isTrue trivial

end Decidable

variable {E : Env} {w w' : World} {a : Act} {r x : ReqId} {ptr : ℕ} {hash : Hash} {m : Bytes}

/-! ### The transaction and the call that waits for it -/

/-- The request of a synchronous transaction with this receipt and this hash. -/
structure Request.IsCommit (ptr : ℕ) (hash : Hash) (q : Request) : Prop where
  parent : q.parent = none
  callback : q.callback = none
  processError : q.processError = none
  transaction : q.processResponse.IsTransaction
  returnPtr : q.returnPtr = some ptr
  txnHash : q.txnHash = hash

lemma Request.IsCommit.congr {q q' : Request} (hq : q.IsCommit ptr hash) (h : q'.fixed = q.fixed) :
    q'.IsCommit ptr hash := by
  constructor
  · rw [Request.fixed_parent h]
    exact hq.parent
  · rw [Request.fixed_callback h]
    exact hq.callback
  · rw [Request.fixed_processError h]
    exact hq.processError
  · rw [Request.fixed_processResponse h]
    exact hq.transaction
  · rw [Request.fixed_returnPtr h]
    exact hq.returnPtr
  · rw [Request.fixed_txnHash h]
    exact hq.txnHash

/-- What holds while the program waits for the transaction `r`. -/
structure World.Commits (r : ReqId) (ptr : ℕ) (hash : Hash) (w : World) : Prop where
  ok : w.Ok
  made : r < w.next
  commit : (w.heap r).IsCommit ptr hash
  /-- The receipt is fetched of a transaction that is answered. -/
  fetched : ∀ x, (w.heap x).parent = some r → (w.heap r).processed = true
  outermost : w.Outermost r

namespace World

lemma Commits.processed (hc : w.Commits r ptr hash) (h : w.step E a = some w')
    (hp : (w.heap r).processed = true) : (w'.heap r).processed = true := by
  by_cases hm : ∃ m, a = .message r m
  · obtain ⟨m, rfl⟩ := hm
    simp only [World.step, Option.ite_none_right_eq_some, Option.some.injEq] at h
    obtain ⟨-, rfl⟩ := h
    exact processMessage_processed
  · exact (step_keeps hc.made hc.commit.processError h fun m hm' => hm ⟨m, hm'⟩).processed hp

/-- **Every step under the running call keeps it so.** -/
theorem Commits.step (hc : w.Commits r ptr hash) (hb : w.Busy a) (h : w.step E a = some w') :
    w'.Commits r ptr hash := by
  obtain ⟨f, hf⟩ := Option.isSome_iff_exists.mp hb
  refine ⟨hc.ok.step h, hc.made.trans_le (step_next h).1, hc.commit.congr (step_fixed h hc.made),
    fun x hx => ?_, hc.outermost.step hf h⟩
  apply hc.processed h
  rcases step_children hc.ok hc.made hc.commit.parent h hx with hx | hwant
  · exact hc.fetched x hx
  · exact (wantsReceipt_iff.mp (wantingReceipt_eq_some hwant).2).1

/-- A fetch of the receipt writes to the same receipt, for the hash of the transaction. -/
lemma Commits.fetch (hc : w.Commits r ptr hash) (hx : (w.heap x).parent = some r) :
    (w.heap x).processResponse = .receipt ∧ (w.heap x).callback = none ∧
      (w.heap x).returnPtr = some ptr ∧ (w.heap x).txnHash = hash ∧ r ≠ x := by
  obtain ⟨hh, -, -, hcb, hptr, hhash⟩ := hc.ok.child_fields hx
  refine ⟨hh, hcb.trans hc.commit.callback, hptr.trans hc.commit.returnPtr,
    hhash.trans hc.commit.txnHash, ?_⟩
  rintro rfl
  exact nomatch hc.commit.parent.symm.trans hx

lemma Commits.answers_self (hc : w.Commits r ptr hash) : w.Answers r ptr (.message r m) :=
  .inl ((callOf_eq hc.commit.parent).mpr (.inl rfl))

/-! ### A transaction that is settled -/

/-- The call that waits for `r` will return `b`, or has, and the receipt is this one. -/
structure Settled (r : ReqId) (ptr : ℕ) (b : Bool) (receipt : TransactionReceipt) (w : World) : Prop where
  settled : b = true → (w.heap r).settled = true
  success : (w.heap r).success = b
  receipt : w.receipts ptr = receipt
  outermost : ∀ f, w.running = some f → w.callers = [] → f.pc = .exit → f.success = b
  ended : w.running = none → w.returned = some b

lemma settled_eq_true {q : Request} :
    q.settled = true ↔ q.processed = true ∧ q.needReceipt = false := by
  simp [Request.settled]

/-- **A settled call stays settled until the next message for it.** -/
theorem Settled.step (hE : ∀ q, E.stale q = q) {b : Bool} {receipt : TransactionReceipt}
    (hc : w.Commits r ptr hash) (hw : w.Settled r ptr b receipt) (hb : w.Busy a)
    (hcut : b = true → w.Uninterrupted a) (ha : ¬ w.Answers r ptr a) (h : w.step E a = some w') :
    w'.Settled r ptr b receipt := by
  obtain ⟨f, hf⟩ := Option.isSome_iff_exists.mp hb
  have hread : w.read E r = w.heap r := by
    unfold World.read
    split
    · rfl
    · exact hE _
  have hkeeps : Keeps r w w' := by
    refine step_keeps hc.made hc.commit.processError h ?_
    rintro m rfl
    exact ha hc.answers_self
  have hbottom : w.callers = [] → f.main = some r := hc.outermost.running f hf
  refine ⟨fun hb => ?_, hkeeps.success.trans hw.success, ?_, fun g hg hcal hpc => ?_, fun hn => ?_⟩
  · obtain ⟨hp, hn⟩ := settled_eq_true.mp (hw.settled hb)
    refine settled_eq_true.mpr ⟨hkeeps.processed hp, ?_⟩
    by_contra hn'
    have hn' := hkeeps.need (by simpa using hn')
    exact nomatch hn.symm.trans hn'
  · rw [step_receipts h, hw.receipt]
    rintro x m rfl hptr
    exact ha (.inr hptr)
  · cases step_moves hf h with
    | goes f' hrun _ _ _ _ hpc' =>
      obtain rfl := Option.some.inj (hrun.symm.trans hg)
      exact absurd hpc hpc'
    | settles m hm hq hrun hcal' =>
      obtain rfl := Option.some.inj (hrun.symm.trans hg)
      obtain rfl := Option.some.inj (hm.symm.trans (hbottom (hcal'.symm.trans hcal)))
      rw [hread]
      exact hw.success
    | ends hpc' hm hrun hcal' =>
      obtain rfl := Option.some.inj (hrun.symm.trans hg)
      have hfalse := hm r (hbottom (hcal'.symm.trans hcal))
      rw [hread] at hfalse
      cases b with
      | true => exact nomatch hfalse.symm.trans (hw.settled rfl)
      | false => exact hc.outermost.unfinished f hf (by simp [hpc'])
    | fetches c p hrun hcal' =>
      obtain rfl := Option.some.inj (hrun.symm.trans hg)
      cases hpc
    | resumes c cs hcal' hrun hcs =>
      obtain rfl := Option.some.inj (hrun.symm.trans hg)
      cases hpc
    | returns _ _ hrun => exact nomatch hrun.symm.trans hg
  · cases step_moves hf h with
    | goes f' hrun => exact nomatch hrun.symm.trans hn
    | settles m hm hq hrun => exact nomatch hrun.symm.trans hn
    | ends hpc hm hrun => exact nomatch hrun.symm.trans hn
    | fetches c p hrun => exact nomatch hrun.symm.trans hn
    | resumes c cs hcal hrun => exact nomatch hrun.symm.trans hn
    | returns hend hcal hrun hcal' hret =>
      rw [hret, hbottom hcal]
      refine congrArg some ?_
      rcases hend with ⟨rfl, hpc⟩ | ⟨rfl, hpc⟩
      · cases b with
        | true =>
          rcases hcut rfl with h | h
          · cases h
          · exact absurd hcal h
        | false => exact hc.outermost.unfinished f hf (by simp [hpc])
      · exact hw.outermost f hf hcal hpc

lemma step_message (h : w.step E (.message x m) = some w') :
    (∃ f, w.running = some f ∧ f.pc = .perform) ∧ x ∈ w.attached ∧ w' = processMessage E w x m := by
  simp only [World.step, Option.ite_none_right_eq_some, Option.some.injEq] at h
  obtain ⟨⟨hpc, hx, -⟩, rfl⟩ := h
  exact ⟨Option.map_eq_some_iff.mp hpc, hx, rfl⟩

lemma Settled.of_message {b : Bool} {receipt : TransactionReceipt}
    (h : w.step E (.message x m) = some w')
    (hset : b = true → ((processMessage E w x m).heap r).settled = true)
    (hs : ((processMessage E w x m).heap r).success = b)
    (hreceipt : (processMessage E w x m).receipts ptr = receipt) : w'.Settled r ptr b receipt := by
  obtain ⟨⟨f, hf, hpc⟩, -, rfl⟩ := step_message h
  have hrun : (processMessage E w x m).running = some f :=
    (congrArg Loop.running (Within.processMessage E w x m).loop).trans hf
  refine ⟨hset, hs, hreceipt, fun g hg _ hexit => ?_, fun hn => nomatch hrun.symm.trans hn⟩
  obtain rfl := Option.some.inj (hrun.symm.trans hg)
  exact nomatch hpc.symm.trans hexit

/-- A rejection settles the transaction, and its detail is in the receipt. -/
lemma Settled.of_rejects (hc : w.Commits r ptr hash) (ha : w.Rejects E r a)
    (h : w.step E a = some w') : ∃ text, w'.Settled r ptr false (.failed (some text)) := by
  cases a with
  | message x m =>
    obtain ⟨rfl, hm⟩ := ha
    simp only [Option.any_eq_true, decide_eq_true_eq] at hm
    obtain ⟨response, hm, herr, hdetail⟩ := hm
    obtain ⟨detail, hdetail⟩ := Option.isSome_iff_exists.mp hdetail
    refine ⟨errorText response.error detail, .of_message h (fun hb => nomatch hb) ?_ ?_⟩
    · rw [processMessage_rejected hc.commit.transaction hm herr]
    · rw [processMessage_transaction_receipts hc.commit.transaction hc.commit.returnPtr]
      simp [hm, herr, hdetail]
  | _ => exact ha.elim

lemma Settled.of_brings (hc : w.Commits r ptr hash) (ha : w.Brings E r a)
    (h : w.step E a = some w') : ∃ receipt, w'.Settled r ptr true (.decoded hash receipt) := by
  cases a with
  | message x m =>
    obtain ⟨hx, hs, hm⟩ := ha
    obtain ⟨hh, hcb, hptr, hhash, hne⟩ := hc.fetch hx
    have hheap := processMessage_settles (E := E) (m := m) hh hx hne
    cases hdec : E.codec.receipt m with
    | error receipt =>
      rw [hdec] at hm
      cases hm
    | ok receipt =>
      refine ⟨receipt, .of_message h (fun _ => ?_) ?_ ?_⟩
      · rw [hheap]
        exact settled_eq_true.mpr ⟨hc.fetched x hx, rfl⟩
      · rw [hheap]
        exact hs
      · rw [processMessage_fetch_receipts hh hcb hptr, hdec, hhash]
  | _ => exact ha.elim

end World

section Settles

variable {t : World} {as : List Act} (hE : ∀ q, E.stale q = q) (hc : w.Commits r ptr hash)
  (hb : Every (World.step E) World.Busy w as) (hrun : run (World.step E) w as = some t)

include hE hc hb hrun

/-- **A rejection that is not followed by another message** is what the caller sees: the call returns
false, and the text is in the receipt. -/
theorem settled_of_rejects (ha : Lastly (World.step E) (World.Rejects E r) (World.Answers r ptr) w as) :
    ∃ text, t.Settled r ptr false (.failed (some text)) := by
  refine run_lastly (fun s => ∃ text, s.Settled r ptr false (.failed (some text)))
    (fun _ _ _ hc hb h => World.Commits.step hc hb h) ?_ ?_ hc hb ha hrun
  · exact fun s a s' hc _ ha h => World.Settled.of_rejects hc ha h
  · rintro s a s' hc ⟨text, hs⟩ hb ha h
    exact ⟨text, hs.step hE hc hb nofun ha h⟩

/-- **A receipt that is not followed by another message** is what the caller sees, if libcurl does not fail:
the call returns true. -/
theorem settled_of_brings (ha : Lastly (World.step E) (World.Brings E r) (World.Answers r ptr) w as)
    (hcut : Every (World.step E) World.Uninterrupted w as) :
    ∃ receipt, t.Settled r ptr true (.decoded hash receipt) := by
  refine run_lastly (fun s => ∃ receipt, s.Settled r ptr true (.decoded hash receipt))
    (fun _ _ _ hc hb h => World.Commits.step hc hb.1 h) ?_ ?_ hc (hb.and hcut) ha hrun
  · exact fun s a s' hc _ ha h => World.Settled.of_brings hc ha h
  · rintro s a s' hc ⟨receipt, hs⟩ ⟨hb, hcut⟩ ha h
    exact ⟨receipt, hs.step hE hc hb (fun _ => hcut) ha h⟩

end Settles

/-! ### A receipt of its own -/

/-- The transaction `r` and the fetches of its receipt are the only requests with the receipt at `ptr`, and
it is untouched until `r` is answered. -/
structure World.Tracked (r : ReqId) (ptr : ℕ) (w : World) : Prop where
  own : ∀ x, w.Listed x → (w.heap x).returnPtr = some ptr → w.callOf x = r
  initial : (w.heap r).processed = false → w.receipts ptr = .initial
  fetched : ∀ x, (w.heap x).parent = some r → (w.heap r).success = true

namespace World

section Tracked

variable (hc : w.Commits r ptr hash) (hw : w.Tracked r ptr)

include hc hw

/-- A message for the receipt is one for the transaction, or for a fetch of its receipt. -/
lemma Tracked.answers (ha : w.Answers r ptr (.message x m)) (hx : x ∈ w.attached) :
    x = r ∨ (w.heap x).parent = some r := by
  apply (callOf_eq hc.commit.parent).mp
  rcases ha with ha | ha
  · exact ha
  · exact hw.own x (.inr hx) ha

/-- **Every step keeps the receipt its own**, if the transaction is answered once and no call takes the
receipt. -/
theorem Tracked.step (honce : w.AnswersOnce r a) (hspare : a.Spares ptr) (h : w.step E a = some w') :
    w'.Tracked r ptr := by
  have hok := hc.ok.step h
  refine ⟨fun x hx hptr => ?_, fun hp => ?_, fun x hx => ?_⟩
  · rcases step_listed h hx with hx | ⟨-, ⟨c, rfl, hx⟩ | ⟨p, hp, hx⟩⟩
    · have hfixed := step_fixed h (hc.ok.listed_lt hx)
      rw [Request.fixed_returnPtr hfixed] at hptr
      unfold callOf
      rw [Request.fixed_parent hfixed]
      exact hw.own x hx hptr
    · rw [hx] at hptr
      exact absurd hptr hspare
    · have hx' : (w'.heap x).fixed = ((w.heap p).receiptFetch p).fixed := hx
      obtain ⟨hmem, hwants⟩ := wantingReceipt_eq_some hp
      have hparent := hc.ok.parent_of_need (wantsReceipt_iff.mp hwants).2.2.1
      rw [Request.fixed_returnPtr hx'] at hptr
      have hpr : w.callOf p = r := hw.own p (.inl hmem) hptr
      obtain rfl : p = r := by
        unfold callOf at hpr
        rwa [hparent] at hpr
      exact callOf_child (Request.fixed_parent hx')
  · have hp' : (w.heap r).processed = false := by
      by_contra hn
      exact nomatch (hc.processed h (by simpa using hn)).symm.trans hp
    rw [step_receipts h]
    · exact hw.initial hp'
    · rintro x m rfl hptr
      obtain ⟨-, hx, rfl⟩ := step_message h
      rcases hw.answers hc (m := m) (.inr hptr) hx with rfl | hx
      · exact nomatch processMessage_processed.symm.trans hp
      · exact nomatch (hc.fetched x hx).symm.trans hp'
  · obtain ⟨hp, hs⟩ : (w.heap r).processed = true ∧ (w.heap r).success = true := by
      rcases step_children hc.ok hc.made hc.commit.parent h hx with hx | hwant
      · exact ⟨hc.fetched x hx, hw.fetched x hx⟩
      · obtain ⟨hp, hs, -⟩ := wantsReceipt_iff.mp (wantingReceipt_eq_some hwant).2
        exact ⟨hp, hs⟩
    have hkeeps : Keeps r w w' := by
      refine step_keeps hc.made hc.commit.processError h ?_
      rintro m rfl
      exact nomatch (honce rfl).symm.trans hp
    rw [hkeeps.success, hs]

/-- **What a message leaves in the receipt.** -/
lemma Tracked.message (honce : w.AnswersOnce r a) (ha : w.Answers r ptr a) (h : w.step E a = some w') :
    (∃ m, a = .message r m ∧ w'.receipts ptr =
        match E.codec.commit m with
        | none => .initial
        | some response =>
          if response.error = 0 then .initial
          else .failed (response.detail.map (errorText response.error))) ∨
      ∃ x m, a = .message x m ∧ (w.heap x).parent = some r ∧ w'.receipts ptr =
        match E.codec.receipt m with
        | .error receipt => .undecoded receipt
        | .ok receipt => .decoded hash receipt := by
  cases a with
  | message x m =>
    obtain ⟨-, hx, rfl⟩ := step_message h
    rcases hw.answers hc ha hx with rfl | hx
    · refine .inl ⟨m, rfl, ?_⟩
      have hr := processMessage_transaction_receipts (E := E) (m := m) hc.commit.transaction
        hc.commit.returnPtr
      rw [hw.initial (honce rfl)] at hr
      exact hr
    · obtain ⟨hh, hcb, hptr, hhash, -⟩ := hc.fetch hx
      refine .inr ⟨x, m, rfl, hx, ?_⟩
      have hr := processMessage_fetch_receipts (E := E) (m := m) hh hcb hptr
      rw [hhash] at hr
      exact hr
  | _ => exact ha.elim

end Tracked

end World

section Tracks

variable {t : World} {as : List Act} (hc : w.Commits r ptr hash) (hw : w.Tracked r ptr)
  (hp : (w.heap r).processed = false) (hb : Every (World.step E) World.Busy w as)
  (honce : Every (World.step E) (World.AnswersOnce r) w as)
  (hspare : Every (World.step E) (fun _ => Act.Spares ptr) w as)
  (hrun : run (World.step E) w as = some t)

include hc hw hp hb honce hspare hrun

/-- What the caller sees in the receipt was brought about by the last message for it. -/
lemma lastly_of_receipt {P : World → Act → Prop} (Post : TransactionReceipt → Prop)
    (hinit : Post .initial)
    (hpost : ∀ s a s', s.Commits r ptr hash → s.Tracked r ptr → s.AnswersOnce r a →
      s.Answers r ptr a → ¬ P s a → s.step E a = some s' → Post (s'.receipts ptr)) :
    Lastly (World.step E) P (World.Answers r ptr) w as ∨ Post (t.receipts ptr) := by
  refine lastly_of_run (fun s => s.Commits r ptr hash ∧ s.Tracked r ptr)
    (fun s => Post (s.receipts ptr)) ?_ ?_ ?_ ⟨hc, hw⟩ ?_ (hb.and (honce.and hspare)) hrun
  · rintro s a s' ⟨hc, hw⟩ ⟨hb, honce, hspare⟩ h
    exact ⟨hc.step hb h, hw.step hc honce hspare h⟩
  · rintro s a s' ⟨hc, hw⟩ ⟨-, honce, -⟩ ha hP h
    exact hpost s a s' hc hw honce ha hP h
  · rintro s a s' - hs - ha h
    rw [World.step_receipts h]
    · exact hs
    · rintro x m rfl hptr
      exact ha (.inr hptr)
  · rw [hw.initial hp]
    exact hinit

/-- **A text in the receipt is that of a rejection.** -/
theorem rejects_of_failed {text : Bytes} (ht : t.receipts ptr = .failed (some text)) :
    Lastly (World.step E) (World.Rejects E r) (World.Answers r ptr) w as := by
  have h := lastly_of_receipt (P := World.Rejects E r) hc hw hp hb honce hspare hrun
    (fun receipt => ∀ text, receipt ≠ .failed (some text)) nofun ?_
  · exact h.resolve_right fun h => h text ht
  · intro s a s' hc hw honce ha hP h text
    rcases hw.message hc honce ha h with ⟨m, rfl, hr⟩ | ⟨x, m, rfl, -, hr⟩
    · rw [hr]
      split
      · nofun
      · next response hm =>
        split
        · nofun
        · next herr =>
          cases hd : response.detail with
          | none => nofun
          | some detail =>
            refine absurd ⟨rfl, ?_⟩ hP
            simp [hm, herr, hd]
    · rw [hr]
      split <;> nofun

/-- **A `Receipt` in the receipt is the answer to a fetch.** -/
theorem brings_of_decoded {h' : Hash} {receipt : Receipt}
    (ht : t.receipts ptr = .decoded h' receipt) :
    Lastly (World.step E) (World.Brings E r) (World.Answers r ptr) w as := by
  have h := lastly_of_receipt (P := World.Brings E r) hc hw hp hb honce hspare hrun
    (fun receipt => ∀ h' rc, receipt ≠ .decoded h' rc) nofun ?_
  · exact h.resolve_right fun h => h h' receipt ht
  · intro s a s' hc hw honce ha hP h h' rc
    rcases hw.message hc honce ha h with ⟨m, rfl, hr⟩ | ⟨x, m, rfl, hx, hr⟩
    · rw [hr]
      split
      · nofun
      · split <;> nofun
    · rw [hr]
      split
      · nofun
      · next receipt hm =>
        refine absurd ⟨hx, hw.fetched x hx, ?_⟩ hP
        simp [hm, Except.toBool]

end Tracks

/-- **A call that returns true was not interrupted.** -/
theorem uninterrupted_of_returned {t : World} {as : List Act} (hw : w.Outermost r)
    (hb : Every (World.step E) World.Busy w as) (hrun : run (World.step E) w as = some t)
    (ht : t.returned = some true) : Every (World.step E) World.Uninterrupted w as := by
  by_contra hcut
  have hcut' : Sometime (World.step E) (fun s a => ¬ s.Uninterrupted a) w as := by
    by_contra hn
    exact hcut ((every_not_of_not_sometime hn).mono fun _ _ h => not_not.mp h)
  have hend := run_sometime (World.Outermost r) (fun s => s.running = none ∧ s.returned = some false)
    ?_ ?_ ?_ hw hb hcut' hrun
  · exact absurd (ht.symm.trans hend.2.2) (by decide)
  · intro s a s' hw hb h
    obtain ⟨f, hf⟩ := Option.isSome_iff_exists.mp hb
    exact hw.step hf h
  · intro s a s' hw hb ha h
    obtain ⟨f, hf⟩ := Option.isSome_iff_exists.mp hb
    cases a with
    | curl ok =>
      obtain ⟨hok, hcal⟩ := not_or.mp ha
      obtain rfl : ok = false := by simpa using hok
      simp only [World.step, Option.ite_none_right_eq_some, Option.some.injEq] at h
      obtain ⟨hpc, rfl⟩ := h
      have hpc' : f.pc = .perform := by simpa [World.pc, hf] using hpc
      have hcal' : s.callers = [] := not_not.mp hcal
      have hs : f.success = false := hw.unfinished f hf (by simp [hpc'])
      obtain ⟨hrun, -, hret⟩ := World.leave_returns hf hcal'
      refine ⟨hrun, ?_⟩
      show s.leave.returned = some false
      rw [hret, hw.running f hf hcal', hs]
      rfl
    | _ => exact absurd trivial ha
  · rintro s a s' - ⟨hn, -⟩ hb -
    simp [World.Busy, hn] at hb

end Libaergo
