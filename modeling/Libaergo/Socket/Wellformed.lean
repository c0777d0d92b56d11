import Libaergo.Socket.Steps

/-!
# Well-formed instances

What holds of every instance, whatever libcurl, the node and the program do: identifiers are fresh, a
request with a parent is a receipt fetch that carries what the parent was sent with, receipts are wanted
of transactions only, and the counter `transfers` does not fall short of the attached transfers.
-/

namespace Libaergo

open Lib

variable {E : Env} {w w' : World} {a : Act} {q : Request}

/-- A well-formed instance. -/
structure World.Ok (w : World) : Prop where
  requests_lt : ∀ r ∈ w.requests, r < w.next
  attached_lt : ∀ r ∈ w.attached, r < w.next
  attached_nodup : w.attached.Nodup
  /-- A transfer that libcurl refused is counted for good. -/
  attached_le : (w.attached.length : ℤ) ≤ w.transfers
  /-- Only a synchronous transaction makes its caller wait for the receipt. -/
  callers : ∀ c ∈ w.callers, c.fetching < w.next ∧ (w.heap c.fetching).callback = none ∧
    (w.heap c.fetching).parent = none
  accepted : ∀ r ∈ w.accepted,
    r < w.next ∧ (w.heap r).callback ≠ none ∧ (w.heap r).parent = none
  unmade : ∀ r, w.next ≤ r → (w.heap r).parent = none
  /-- A request with a parent fetches the receipt of the parent, which has none itself. -/
  child : ∀ x p, (w.heap x).parent = some p →
    p < w.next ∧ (w.heap p).parent = none ∧ (w.heap x).fixed = (w.heap p).receiptFetch p
  need : ∀ x, (w.heap x).needReceipt = true → (w.heap x).processResponse.IsTransaction
  /-- Nothing is done about an error text that answers a transaction. -/
  errors : ∀ x, (w.heap x).processError ≠ none → ¬ (w.heap x).processResponse.IsTransaction

lemma Request.receiptFetch_congr {q q' : Request} (h : q'.fixed = q.fixed) (r : ReqId) :
    q'.receiptFetch r = q.receiptFetch r := by
  simp only [Request.receiptFetch, Request.fixed_txnHash h, Request.fixed_callback h,
    Request.fixed_returnPtr h, show q'.arg = q.arg from congrArg (fun q => q.arg) h]

lemma Call.request_errors (c : Call) :
    c.request.processError ≠ none → ¬ c.request.processResponse.IsTransaction := by
  intro herr ht
  have herr' : c.service.errorHandler ≠ none := herr
  have ht' : c.service.handler.IsTransaction := ht
  cases hs : c.service <;> rw [hs] at herr' ht'
  case query => rcases ht' with h | h <;> cases h
  case queryStateVar => rcases ht' with h | h <;> cases h
  all_goals exact herr' rfl

namespace World

/-! ### What is made of a transaction -/

namespace Ok

lemma child_fields (hw : w.Ok) {x p : ReqId} (h : (w.heap x).parent = some p) :
    (w.heap x).processResponse = .receipt ∧ (w.heap x).processError = some .failedReceipt ∧
      (w.heap x).keepActive = false ∧ (w.heap x).callback = (w.heap p).callback ∧
      (w.heap x).returnPtr = (w.heap p).returnPtr ∧ (w.heap x).txnHash = (w.heap p).txnHash := by
  have hf : (w.heap x).fixed = ((w.heap p).receiptFetch p).fixed := (hw.child x p h).2.2
  have hcb := Request.fixed_callback hf
  have hptr := Request.fixed_returnPtr hf
  have hhash := Request.fixed_txnHash hf
  exact ⟨Request.fixed_processResponse hf, Request.fixed_processError hf,
    Request.fixed_keepActive hf, hcb, hptr, hhash⟩

lemma child_need (hw : w.Ok) {x p : ReqId} (h : (w.heap x).parent = some p) :
    (w.heap x).needReceipt = false := by
  by_contra hn
  have ht := hw.need x (by simpa using hn)
  rw [(hw.child_fields h).1] at ht
  rcases ht with ht | ht <;> cases ht

lemma parent_of_need (hw : w.Ok) {x : ReqId} (h : (w.heap x).needReceipt = true) :
    (w.heap x).parent = none := by
  by_contra hp
  obtain ⟨p, hp⟩ := Option.ne_none_iff_exists'.mp hp
  rw [hw.child_need hp] at h
  cases h

lemma child_lt (hw : w.Ok) {x p : ReqId} (h : (w.heap x).parent = some p) : x < w.next := by
  by_contra hx
  rw [hw.unmade x (not_lt.mp hx)] at h
  cases h

end Ok

lemma callOf_eq {x r : ReqId} (hr : (w.heap r).parent = none) :
    w.callOf x = r ↔ x = r ∨ (w.heap x).parent = some r := by
  unfold callOf
  cases hx : (w.heap x).parent with
  | none => simp
  | some p =>
    have hne : x ≠ r := by
      rintro rfl
      rw [hr] at hx
      cases hx
    simp [hne]

lemma callOf_child {c p : ReqId} (hp : (w.heap c).parent = some p) : w.callOf c = p := by
  simp [callOf, hp]

/-! ### Steps that make no request -/

lemma Ok.mono (hw : w.Ok) (hnext : w'.next = w.next)
    (hfixed : ∀ y, (w'.heap y).fixed = (w.heap y).fixed)
    (hneed : ∀ y, (w'.heap y).needReceipt = true → (w.heap y).processResponse.IsTransaction)
    (hreq : ∀ r ∈ w'.requests, r ∈ w.requests) (hatt : w'.attached.Sublist w.attached)
    (htr : (w'.attached.length : ℤ) ≤ w'.transfers) (hcal : ∀ c ∈ w'.callers, c ∈ w.callers)
    (hacc : w'.accepted = w.accepted) : w'.Ok where
  requests_lt r hr := by
    rw [hnext]
    exact hw.requests_lt r (hreq r hr)
  attached_lt r hr := by
    rw [hnext]
    exact hw.attached_lt r (hatt.subset hr)
  attached_nodup := hw.attached_nodup.sublist hatt
  attached_le := htr
  callers c hc := by
    obtain ⟨hlt, hcb⟩ := hw.callers c (hcal c hc)
    rw [hnext, Request.fixed_callback (hfixed _), Request.fixed_parent (hfixed _)]
    exact ⟨hlt, hcb⟩
  accepted r hr := by
    rw [hacc] at hr
    rw [hnext, Request.fixed_callback (hfixed _), Request.fixed_parent (hfixed _)]
    exact hw.accepted r hr
  unmade r hr := by
    rw [hnext] at hr
    rw [Request.fixed_parent (hfixed _)]
    exact hw.unmade r hr
  child x p hx := by
    rw [Request.fixed_parent (hfixed _)] at hx
    obtain ⟨hlt, hp, hf⟩ := hw.child x p hx
    rw [hnext, Request.fixed_parent (hfixed _), hfixed, Request.receiptFetch_congr (hfixed p)]
    exact ⟨hlt, hp, hf⟩
  need x hx := by
    rw [Request.fixed_processResponse (hfixed _)]
    exact hneed x hx
  errors x hx := by
    rw [Request.fixed_processError (hfixed _)] at hx
    rw [Request.fixed_processResponse (hfixed _)]
    exact hw.errors x hx

lemma Ok.moved (hw : w.Ok) (hheap : w'.heap = w.heap)
    (hloop : w'.loop = { w.loop with running := w'.running, returned := w'.returned }) : w'.Ok := by
  have hreq : w'.requests = w.requests := congrArg Loop.requests hloop
  have hatt : w'.attached = w.attached := congrArg Loop.attached hloop
  have htr : w'.transfers = w.transfers := congrArg Loop.transfers hloop
  have hcal : w'.callers = w.callers := congrArg Loop.callers hloop
  apply hw.mono (congrArg Loop.next hloop)
  · exact fun y => by rw [hheap]
  · exact fun y hy => hw.need y (by rwa [hheap] at hy)
  · exact fun r hr => by rwa [hreq] at hr
  · rw [hatt]
  · rw [hatt, htr]
    exact hw.attached_le
  · exact fun c hc => by rwa [hcal] at hc
  · exact congrArg Loop.accepted hloop

lemma Ok.within (hw : w.Ok) {x : ReqId} (h : Within x w w') : w'.Ok := by
  have hatt : w'.attached = w.attached := congrArg Loop.attached h.loop
  have htr : w'.transfers = w.transfers := congrArg Loop.transfers h.loop
  have hcal : w'.callers = w.callers := congrArg Loop.callers h.loop
  apply hw.mono (congrArg Loop.next h.loop) h.fixed
  · intro y hy
    rcases h.need y hy with hy | ⟨rfl, ht⟩
    · exact hw.need y hy
    · exact ht
  · exact fun r hr => by rwa [h.requests] at hr
  · rw [hatt]
  · rw [hatt, htr]
    exact hw.attached_le
  · exact fun c hc => by rwa [hcal] at hc
  · exact congrArg Loop.accepted h.loop

lemma leave_callers : ∀ c ∈ w.leave.callers, c ∈ w.callers := by
  intro c hc
  unfold leave at hc
  split at hc
  · exact hc
  · split at hc
    · exact hc
    · next c' cs hcs =>
      rw [hcs]
      exact List.mem_cons_of_mem _ hc

lemma leave_fixed (y : ReqId) : (w.leave.heap y).fixed = (w.heap y).fixed := by
  rcases w.leave_heap y with h | ⟨-, h⟩
  · rw [h]
  · rw [h]
    rfl

lemma Ok.leave (hw : w.Ok) : w.leave.Ok := by
  apply hw.mono w.leave_next leave_fixed
  · intro y hy
    rcases w.leave_heap y with h | ⟨-, h⟩
    · rw [h] at hy
      exact hw.need y hy
    · rw [h] at hy
      cases hy
  · exact fun r hr => by rwa [leave_requests] at hr
  · rw [leave_attached]
  · rw [leave_attached, leave_transfers]
    exact hw.attached_le
  · exact leave_callers
  · exact w.leave_accepted

lemma Ok.release (hw : w.Ok) : w.release.Ok := by
  apply hw.mono
  · rfl
  · exact fun _ => rfl
  · exact hw.need
  · exact fun r hr => List.mem_of_mem_filter hr
  · exact List.Sublist.refl _
  · exact hw.attached_le
  · exact fun _ hc => hc
  · rfl

lemma Ok.done (hw : w.Ok) {r : ReqId} (hr : r ∈ w.attached) : (w.done r).Ok := by
  apply hw.mono
  · rfl
  · exact fun _ => rfl
  · exact hw.need
  · exact fun _ hr => hr
  · exact List.erase_sublist
  · have hle := hw.attached_le
    have hpos : 0 < w.attached.length := List.length_pos_of_mem hr
    simp only [World.done, List.length_erase_of_mem hr]
    omega
  · exact fun _ hc => hc
  · rfl

lemma Ok.touch (hw : w.Ok) (kind : UseKind) (r : ReqId) : (w.touch kind r).Ok := by
  apply hw.moved (touch_heap ..)
  rw [touch_loop]
  unfold World.touch
  split <;> rfl

lemma Ok.checkMain (hw : w.Ok) : (w.checkMain E).Ok := by
  unfold World.checkMain
  split
  · exact hw.moved rfl rfl
  · next m _ =>
    have hw1 := hw.touch .main m
    dsimp only
    split
    · exact hw1.moved rfl rfl
    · split <;> exact hw1.moved rfl rfl

/-! ### Steps that make a request -/

lemma Ok.newRequest (hw : w.Ok) (hneed : q.needReceipt = false)
    (herr : q.processError ≠ none → ¬ q.processResponse.IsTransaction)
    (hq : ∀ p, q.parent = some p →
      p < w.next ∧ (w.heap p).parent = none ∧ q = (w.heap p).receiptFetch p) :
    (w.newRequest q).Ok := by
  have hnext : (w.newRequest q).next = w.next + 1 := rfl
  have hold : ∀ {x : ReqId}, x < w.next → (w.newRequest q).heap x = w.heap x :=
    fun hx => newRequest_heap_ne _ _ hx.ne
  refine ⟨fun r hr => ?_, fun r hr => ?_, hw.attached_nodup, hw.attached_le, fun c hc => ?_,
    fun r hr => ?_, fun r hr => ?_, fun x p hx => ?_, fun x hx => ?_, fun x hx => ?_⟩
  · rcases List.mem_append.mp hr with hr | hr
    · exact (hw.requests_lt r hr).trans (Nat.lt_succ_self _)
    · obtain rfl := List.mem_singleton.mp hr
      exact Nat.lt_succ_self _
  · exact (hw.attached_lt r hr).trans (Nat.lt_succ_self _)
  · obtain ⟨hlt, hcb⟩ := hw.callers c hc
    rw [hold hlt]
    exact ⟨hlt.trans (Nat.lt_succ_self _), hcb⟩
  · obtain ⟨hlt, h⟩ := hw.accepted r hr
    rw [hold hlt]
    exact ⟨hlt.trans (Nat.lt_succ_self _), h⟩
  · have hr' : w.next < r := Nat.lt_of_succ_le hr
    rw [newRequest_heap_ne _ _ hr'.ne']
    exact hw.unmade r hr'.le
  · by_cases hxn : x = w.next
    · subst hxn
      rw [newRequest_heap_next] at hx ⊢
      obtain ⟨hlt, hp, hf⟩ := hq p hx
      rw [hold hlt, hf]
      exact ⟨hlt.trans (Nat.lt_succ_self _), hp, rfl⟩
    · rw [newRequest_heap_ne _ _ hxn] at hx ⊢
      obtain ⟨hlt, hp, hf⟩ := hw.child x p hx
      rw [hold hlt]
      exact ⟨hlt.trans (Nat.lt_succ_self _), hp, hf⟩
  · by_cases hxn : x = w.next
    · subst hxn
      rw [newRequest_heap_next, hneed] at hx
      cases hx
    · rw [newRequest_heap_ne _ _ hxn] at hx ⊢
      exact hw.need x hx
  · by_cases hxn : x = w.next
    · subst hxn
      rw [newRequest_heap_next] at hx ⊢
      exact herr hx
    · rw [newRequest_heap_ne _ _ hxn] at hx ⊢
      exact hw.errors x hx

lemma Ok.addHandle (hw : w.Ok) {r : ReqId} (hr : r < w.next) (hn : r ∉ w.attached) (accepted : Bool) :
    (w.addHandle r accepted).Ok := by
  have hle := hw.attached_le
  cases accepted with
  | false =>
    refine ⟨hw.requests_lt, hw.attached_lt, hw.attached_nodup, ?_, hw.callers, hw.accepted,
      hw.unmade, hw.child, hw.need, hw.errors⟩
    show (w.attached.length : ℤ) ≤ w.transfers + 1
    omega
  | true =>
    refine ⟨hw.requests_lt, fun x hx => ?_, ?_, ?_, hw.callers, hw.accepted,
      hw.unmade, hw.child, hw.need, hw.errors⟩
    · rcases List.mem_cons.mp hx with rfl | hx
      · exact hr
      · exact hw.attached_lt x hx
    · exact List.nodup_cons.mpr ⟨hn, hw.attached_nodup⟩
    · show ((r :: w.attached).length : ℤ) ≤ w.transfers + 1
      simp only [List.length_cons]
      omega

lemma Ok.sent (hw : w.Ok) (hneed : q.needReceipt = false)
    (herr : q.processError ≠ none → ¬ q.processResponse.IsTransaction)
    (hq : ∀ p, q.parent = some p →
      p < w.next ∧ (w.heap p).parent = none ∧ q = (w.heap p).receiptFetch p) (accepted : Bool) :
    ((w.newRequest q).addHandle w.next accepted).Ok := by
  apply (hw.newRequest hneed herr hq).addHandle
  · exact Nat.lt_succ_self _
  · exact fun hn => (hw.attached_lt _ hn).false

lemma Ok.call (hw : w.Ok) (c : Call) : (w.call c).Ok := by
  have hq : ∀ p, c.request.parent = some p →
      p < w.next ∧ (w.heap p).parent = none ∧ c.request = (w.heap p).receiptFetch p :=
    fun p hp => nomatch hp
  have herr := c.request_errors
  unfold World.call
  split
  · exact hw.moved rfl rfl
  · exact (hw.newRequest rfl herr hq).moved rfl rfl
  · next accepted _ =>
    have hs := hw.sent rfl herr hq accepted
    dsimp only
    split
    · next hcb =>
      refine ⟨hs.requests_lt, hs.attached_lt, hs.attached_nodup, hs.attached_le, hs.callers, ?_,
        hs.unmade, hs.child, hs.need, hs.errors⟩
      intro r hr
      rcases List.mem_cons.mp hr with rfl | hr
      · refine ⟨Nat.lt_succ_self _, ?_, ?_⟩
        · show ((w.newRequest c.request).heap w.next).callback ≠ none
          rw [newRequest_heap_next]
          exact Option.isSome_iff_ne_none.mp hcb
        · show ((w.newRequest c.request).heap w.next).parent = none
          rw [newRequest_heap_next]
          rfl
      · exact hs.accepted r hr
    · split
      · exact hs.moved rfl rfl
      · exact hs.moved rfl rfl

lemma wantingReceipt_eq_some {r : ReqId} (h : w.wantingReceipt = some r) :
    r ∈ w.requests ∧ (w.heap r).wantsReceipt = true := by
  have hwants := List.find?_some h
  exact ⟨List.mem_of_find?_eq_some h, hwants⟩

lemma wantsReceipt_iff {q : Request} : q.wantsReceipt = true ↔
    q.processed = true ∧ q.success = true ∧ q.needReceipt = true ∧ q.processingReceipt = false := by
  simp [Request.wantsReceipt, and_assoc]

lemma Ok.modify (hw : w.Ok) {r : ReqId} {f : Request → Request} (hf : ∀ q, (f q).fixed = q.fixed)
    (hn : ∀ q, (f q).needReceipt = true → q.needReceipt = true) : (w.modify r f).Ok := by
  have h : ∀ y, ((w.modify r f).heap y).fixed = (w.heap y).fixed ∧
      (((w.modify r f).heap y).needReceipt = true → (w.heap y).needReceipt = true) := by
    intro y
    by_cases hy : y = r
    · subst hy
      rw [modify_heap_self]
      exact ⟨hf _, hn _⟩
    · rw [modify_heap_ne _ _ _ hy]
      exact ⟨rfl, id⟩
  apply hw.mono
  · rfl
  · exact fun y => (h y).1
  · exact fun y hy => hw.need y ((h y).2 hy)
  · exact fun _ hr => hr
  · exact List.Sublist.refl _
  · exact hw.attached_le
  · exact fun _ hc => hc
  · rfl

lemma Ok.giveUpReceipt (hw : w.Ok) (r : ReqId) : (w.giveUpReceipt r).Ok :=
  hw.modify (fun _ => rfl) fun _ h => nomatch h

lemma Ok.checkReceipts (hw : w.Ok) (start : Start) : (w.checkReceipts start).Ok := by
  unfold World.checkReceipts
  split
  · exact hw.moved rfl rfl
  · next r hr =>
    obtain ⟨hmem, hwants⟩ := wantingReceipt_eq_some hr
    have hneed := (wantsReceipt_iff.mp hwants).2.2.1
    set w1 := w.modify r fun q => { q with processingReceipt := true }
    have hw1 : w1.Ok := hw.modify (fun _ => rfl) fun _ h => h
    have hr1 : w1.heap r = { w.heap r with processingReceipt := true } := modify_heap_self ..
    have hq : ∀ p, ((w1.heap r).receiptFetch r).parent = some p →
        p < w1.next ∧ (w1.heap p).parent = none ∧
          (w1.heap r).receiptFetch r = (w1.heap p).receiptFetch p := by
      intro p hp
      obtain rfl : r = p := Option.some.inj hp
      refine ⟨hw.requests_lt r hmem, ?_, rfl⟩
      rw [hr1]
      exact hw.parent_of_need hneed
    have herr : ((w1.heap r).receiptFetch r).processError ≠ none →
        ¬ ((w1.heap r).receiptFetch r).processResponse.IsTransaction := by
      rintro - (h | h) <;> cases h
    dsimp only
    split
    · exact hw1.giveUpReceipt r
    · exact (hw1.newRequest rfl herr hq).giveUpReceipt r
    · next _ accepted =>
      have hs := hw1.sent rfl herr hq accepted
      split
      · exact hs
      · next hcb =>
        refine ⟨hs.requests_lt, hs.attached_lt, hs.attached_nodup, hs.attached_le, ?_, hs.accepted,
          hs.unmade, hs.child, hs.need, hs.errors⟩
        intro c hc
        rcases List.mem_cons.mp hc with rfl | hc
        · have hlt : r < w1.next := hw.requests_lt r hmem
          have hnone : (w1.heap r).callback = none := by simpa using hcb
          have hparent := (hq r rfl).2.1
          refine ⟨hlt.trans (Nat.lt_succ_self _), ?_⟩
          show ((w1.newRequest _).heap r).callback = none ∧ ((w1.newRequest _).heap r).parent = none
          rw [newRequest_heap_ne _ _ hlt.ne]
          exact ⟨hnone, hparent⟩
        · exact hs.callers c hc

/-- **Every step keeps an instance well-formed.** -/
theorem Ok.step (hw : w.Ok) (h : w.step E a = some w') : w'.Ok := by
  cases a <;> simp only [World.step, Option.ite_none_right_eq_some, Option.some.injEq] at h <;>
    obtain ⟨hpc, rfl⟩ := h
  case call c => exact hw.call c
  case process =>
    unfold World.process
    split
    · exact hw
    · exact hw.moved rfl rfl
  case enter => exact hw.moved rfl rfl
  case error x text => exact hw.within (Within.processRequestError w x text)
  case message x m => exact hw.within (Within.processMessage E w x m)
  case curl ok =>
    split
    · exact hw.moved rfl rfl
    · exact hw.leave
  case done x => exact hw.done hpc.2
  case infoEnd => exact hw.moved rfl rfl
  case checkReceipts start => exact hw.checkReceipts start
  case checkMain => exact hw.checkMain
  case exit => exact hw.release.leave

/-! ### Fixed fields -/

lemma modify_fixed {r : ReqId} {f : Request → Request} (hf : ∀ q, (f q).fixed = q.fixed) (x : ReqId) :
    ((w.modify r f).heap x).fixed = (w.heap x).fixed := by
  by_cases hx : x = r
  · subst hx
    rw [modify_heap_self]
    exact hf _
  · rw [modify_heap_ne _ _ _ hx]

lemma newRequest_fixed {x : ReqId} (hx : x < w.next) :
    ((w.newRequest q).heap x).fixed = (w.heap x).fixed :=
  congrArg Request.fixed (newRequest_heap_ne _ _ hx.ne)

/-- **No step changes what a request was sent with.** -/
theorem step_fixed (h : w.step E a = some w') {x : ReqId} (hx : x < w.next) :
    (w'.heap x).fixed = (w.heap x).fixed := by
  cases a <;> simp only [World.step, Option.ite_none_right_eq_some, Option.some.injEq] at h <;>
    obtain ⟨-, rfl⟩ := h
  case call c =>
    unfold World.call
    split
    · rfl
    · exact newRequest_fixed hx
    · dsimp only
      split
      · exact newRequest_fixed hx
      · split <;> exact newRequest_fixed hx
  case process =>
    unfold World.process
    split <;> rfl
  case error y text => exact (Within.processRequestError w y text).fixed x
  case message y m => exact (Within.processMessage E w y m).fixed x
  case curl ok =>
    split
    · rfl
    · exact leave_fixed x
  case checkReceipts start =>
    unfold World.checkReceipts
    split
    · rfl
    · next r _ =>
      have h1 := modify_fixed (w := w) (r := r) (f := fun q => { q with processingReceipt := true })
        (fun _ => rfl) x
      set w1 := w.modify r fun q => { q with processingReceipt := true }
      have hx1 : x < w1.next := hx
      have hnew : ((w1.newRequest ((w1.heap r).receiptFetch r)).heap x).fixed = (w.heap x).fixed :=
        (newRequest_fixed hx1).trans h1
      have hgive : ∀ v : World, ((v.giveUpReceipt r).heap x).fixed = (v.heap x).fixed :=
        fun v => modify_fixed (f := fun q => { q with needReceipt := false }) (fun _ => rfl) x
      dsimp only
      split
      · exact (hgive w1).trans h1
      · exact (hgive _).trans hnew
      · split <;> exact hnew
  case checkMain =>
    unfold World.checkMain
    split
    · rfl
    · next m _ =>
      have hm : (((w.touch .main m).heap x)).fixed = (w.heap x).fixed := by rw [touch_heap]
      dsimp only
      split
      · exact hm
      · split <;> exact hm
  case exit => exact leave_fixed (w := w.release) x
  all_goals rfl

lemma Ok.start (receipts : ℕ → TransactionReceipt) (accounts : ℕ → AccountState) :
    (World.start receipts accounts).Ok where
  requests_lt _ hr := nomatch hr
  attached_lt _ hr := nomatch hr
  attached_nodup := List.nodup_nil
  attached_le := le_refl _
  callers _ hc := nomatch hc
  accepted _ hr := nomatch hr
  unmade _ _ := rfl
  child _ _ h := nomatch h
  need _ h := nomatch h
  errors _ h := absurd rfl h

end World

end Libaergo
