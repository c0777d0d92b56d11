import Libaergo.Socket.Wellformed

/-!
# The stages of a call

A call that is answered once passes through these stages: its request waits for the answer; a
transaction that was accepted wants a receipt; the receipt is being fetched by another request, which may
end with `tx not found` and bring it back to wanting; it is complete.  Whatever happens to other calls
leaves the stage as it is (`Undisturbed`).
-/

namespace Libaergo

open Lib

variable {E : Env} {w w' : World} {a : Act} {r c x : ReqId} {m text : Bytes}

/-! ### Stages -/

/-- The request waits for the answer. -/
structure World.Waiting (w : World) (r : ReqId) : Prop where
  listed : r ∈ w.requests
  attached : r ∈ w.attached
  unanswered : (w.heap r).processed = false
  unneeded : (w.heap r).needReceipt = false
  unmarked : (w.heap r).processingReceipt = false
  childless : ∀ x, (w.heap x).parent ≠ some r

/-- The transaction was accepted, and no fetch of its receipt is under way. -/
structure World.Wanting (w : World) (r : ReqId) : Prop where
  listed : r ∈ w.requests
  wants : (w.heap r).wantsReceipt = true
  answered : ∀ x, (w.heap x).parent = some r → (w.heap x).processed = true

/-- The receipt of the transaction is being fetched by the request `c`. -/
structure World.Fetching (w : World) (r c : ReqId) : Prop where
  listed : r ∈ w.requests
  processed : (w.heap r).processed = true
  success : (w.heap r).success = true
  need : (w.heap r).needReceipt = true
  marked : (w.heap r).processingReceipt = true
  child : (w.heap c).parent = some r
  child_listed : c ∈ w.requests
  child_attached : c ∈ w.attached
  unanswered : (w.heap c).processed = false
  answered : ∀ x, (w.heap x).parent = some r → x ≠ c → (w.heap x).processed = true

/-- Nothing is expected for the call any more. -/
structure World.Complete (w : World) (r : ReqId) : Prop where
  processed : (w.heap r).processed = true
  settled : (w.heap r).needReceipt = false
  answered : ∀ x, (w.heap x).parent = some r → (w.heap x).processed = true

inductive Stage where
  | waiting
  | wanting
  | fetching (c : ReqId)
  | complete

def World.At (w : World) (r : ReqId) : Stage → Prop
  | .waiting => w.Waiting r
  | .wanting => w.Wanting r
  | .fetching c => w.Fetching r c
  | .complete => w.Complete r

/-! ### What leaves the stage as it is -/

/-- The request and the fetches of its receipt are as before. -/
structure Undisturbed (r : ReqId) (w w' : World) : Prop where
  self : w'.heap r = w.heap r
  old : ∀ x, (w.heap x).parent = some r → w'.heap x = w.heap x
  new : ∀ x, (w'.heap x).parent = some r → (w.heap x).parent = some r
  requests : ∀ x, x = r ∨ (w.heap x).parent = some r → (w.heap x).releasable = false →
    x ∈ w.requests → x ∈ w'.requests
  attached : ∀ x, x = r ∨ (w.heap x).parent = some r → (w.heap x).processed = false →
    x ∈ w.attached → x ∈ w'.attached

lemma Request.not_releasable_of_unanswered {q : Request} (h : q.processed = false) :
    q.releasable = false := by
  simp [Request.releasable, h]

lemma Request.not_releasable_of_need {q : Request} (h : q.needReceipt = true) :
    q.releasable = false := by
  simp [Request.releasable, h]

namespace World

/-- **The stage of an undisturbed call.** -/
theorem At.undisturbed {s : Stage} (h : w.At r s) (hu : Undisturbed r w w') : w'.At r s := by
  cases s with
  | waiting =>
    have hrel := Request.not_releasable_of_unanswered h.unanswered
    refine ⟨hu.requests r (.inl rfl) hrel h.listed, hu.attached r (.inl rfl) h.unanswered h.attached,
      ?_, ?_, ?_, fun x hx => h.childless x (hu.new x hx)⟩
    · rw [hu.self]
      exact h.unanswered
    · rw [hu.self]
      exact h.unneeded
    · rw [hu.self]
      exact h.unmarked
  | wanting =>
    have hneed := (wantsReceipt_iff.mp h.wants).2.2.1
    refine ⟨hu.requests r (.inl rfl) (Request.not_releasable_of_need hneed) h.listed, ?_,
      fun x hx => ?_⟩
    · rw [hu.self]
      exact h.wants
    · have hx' := hu.new x hx
      rw [hu.old x hx']
      exact h.answered x hx'
  | fetching c =>
    have hrel := Request.not_releasable_of_unanswered h.unanswered
    constructor
    · exact hu.requests r (.inl rfl) (Request.not_releasable_of_need h.need) h.listed
    · rw [hu.self]
      exact h.processed
    · rw [hu.self]
      exact h.success
    · rw [hu.self]
      exact h.need
    · rw [hu.self]
      exact h.marked
    · rw [hu.old c h.child]
      exact h.child
    · exact hu.requests c (.inr h.child) hrel h.child_listed
    · exact hu.attached c (.inr h.child) h.unanswered h.child_attached
    · rw [hu.old c h.child]
      exact h.unanswered
    · intro x hx hxc
      have hx' := hu.new x hx
      rw [hu.old x hx']
      exact h.answered x hx' hxc
  | complete =>
    constructor
    · rw [hu.self]
      exact h.processed
    · rw [hu.self]
      exact h.settled
    · intro x hx
      have hx' := hu.new x hx
      rw [hu.old x hx']
      exact h.answered x hx'

end World

namespace Undisturbed

lemma of_eq (hheap : w'.heap = w.heap) (hreq : w'.requests = w.requests)
    (hatt : w'.attached = w.attached) : Undisturbed r w w' := by
  constructor
  · rw [hheap]
  · exact fun x _ => by rw [hheap]
  · exact fun x hx => by rwa [hheap] at hx
  · exact fun x _ _ hx => by rwa [hreq]
  · exact fun x _ _ hx => by rwa [hatt]

lemma trans {w₁ w₂ w₃ : World} (h : Undisturbed r w₁ w₂) (h' : Undisturbed r w₂ w₃) :
    Undisturbed r w₁ w₃ := by
  have hfam : ∀ x, x = r ∨ (w₁.heap x).parent = some r →
      (x = r ∨ (w₂.heap x).parent = some r) ∧ w₂.heap x = w₁.heap x := by
    rintro x (rfl | hx)
    · exact ⟨.inl rfl, h.self⟩
    · rw [h.old x hx]
      exact ⟨.inr hx, rfl⟩
  constructor
  · rw [h'.self, h.self]
  · intro x hx
    obtain ⟨-, heq⟩ := hfam x (.inr hx)
    rw [h'.old x (by rwa [heq]), heq]
  · exact fun x hx => h.new x (h'.new x hx)
  · intro x hx hrel hmem
    obtain ⟨hx', heq⟩ := hfam x hx
    exact h'.requests x hx' (by rwa [heq]) (h.requests x hx hrel hmem)
  · intro x hx hun hmem
    obtain ⟨hx', heq⟩ := hfam x hx
    exact h'.attached x hx' (by rwa [heq]) (h.attached x hx hun hmem)

lemma modify {f : Request → Request} (hxr : x ≠ r) (hx : (w.heap x).parent ≠ some r)
    (hf : (f (w.heap x)).parent = (w.heap x).parent) : Undisturbed r w (w.modify x f) := by
  constructor
  · rw [World.modify_heap_ne _ _ _ hxr.symm]
  · intro y hy
    apply World.modify_heap_ne
    rintro rfl
    exact hx hy
  · intro y hy
    by_cases hyx : y = x
    · subst hyx
      rw [World.modify_heap_self, hf] at hy
      exact hy
    · rwa [World.modify_heap_ne _ _ _ hyx] at hy
  · exact fun _ _ _ h => h
  · exact fun _ _ _ h => h

lemma within (ho : w.Ok) (hr : (w.heap r).parent = none) (hx : w.callOf x ≠ r) (h : Within x w w') :
    Undisturbed r w w' := by
  have hx' := (not_congr (World.callOf_eq (x := x) hr)).mp hx
  obtain ⟨hxr, hxp⟩ := not_or.mp hx'
  have hreq := h.requests
  have hatt : w'.attached = w.attached := congrArg Loop.attached h.loop
  constructor
  · exact h.frame r (Ne.symm hxr) hxp
  · intro y hy
    apply h.frame y
    · rintro rfl
      exact hxp hy
    · intro hp
      -- a parent has no parent
      rw [(ho.child x y hp).2.1] at hy
      cases hy
  · intro y hy
    rwa [Request.fixed_parent (h.fixed y)] at hy
  · exact fun y _ _ hy => by rwa [hreq]
  · exact fun y _ _ hy => by rwa [hatt]

lemma newRequest (ho : w.Ok) (hr : r < w.next) {q : Request} (hq : q.parent ≠ some r) :
    Undisturbed r w (w.newRequest q) := by
  constructor
  · exact World.newRequest_heap_ne _ _ hr.ne
  · exact fun x hx => World.newRequest_heap_ne _ _ (ho.child_lt hx).ne
  · intro x hx
    by_cases hxn : x = w.next
    · subst hxn
      rw [World.newRequest_heap_next] at hx
      exact absurd hx hq
    · rwa [World.newRequest_heap_ne _ _ hxn] at hx
  · exact fun x _ _ hx => List.mem_append_left _ hx
  · exact fun _ _ _ hx => hx

lemma addHandle (accepted : Bool) : Undisturbed r w (w.addHandle x accepted) := by
  refine ⟨rfl, fun _ _ => rfl, fun _ h => h, fun _ _ _ h => h, fun y _ _ hy => ?_⟩
  cases accepted with
  | true => exact List.mem_cons_of_mem _ hy
  | false => exact hy

lemma release : Undisturbed r w w.release := by
  refine ⟨rfl, fun _ _ => rfl, fun _ h => h, fun x _ hrel hx => ?_, fun _ _ _ h => h⟩
  exact List.mem_filter.mpr ⟨hx, by simp [hrel]⟩

lemma leave (ho : w.Ok)
    (hr : ∀ f c, w.running = some f → f.success = false → w.callers.head? = some c →
      c.fetching = r → (w.heap r).needReceipt = false) : Undisturbed r w w.leave := by
  constructor
  · rcases w.leave_heap r with h | ⟨⟨f, c, hf, hs, hc, hcr⟩, h⟩
    · exact h
    · have hn := hr f c hf hs hc hcr
      rw [h]
      cases hq : w.heap r
      simp_all
  · intro x hx
    rcases w.leave_heap x with h | ⟨⟨f, c, -, -, hcs, rfl⟩, -⟩
    · exact h
    · rw [(ho.callers c (List.mem_of_mem_head? hcs)).2.2] at hx
      cases hx
  · intro x hx
    rwa [Request.fixed_parent (World.leave_fixed x)] at hx
  · exact fun x _ _ hx => by rwa [World.leave_requests]
  · exact fun x _ _ hx => by rwa [World.leave_attached]

lemma call (ho : w.Ok) (hr : r < w.next) (c : Call) : Undisturbed r w (w.call c) := by
  have hq : c.request.parent ≠ some r := nofun
  unfold World.call
  split
  · exact of_eq rfl rfl rfl
  · exact (newRequest ho hr hq).trans (of_eq rfl rfl rfl)
  · next accepted _ =>
    have hs := (newRequest ho hr hq).trans (addHandle (x := w.next) accepted)
    dsimp only
    split
    · exact hs.trans (of_eq rfl rfl rfl)
    · split <;> exact hs.trans (of_eq rfl rfl rfl)

lemma checkReceipts (ho : w.Ok) (hr : r < w.next) (hw : w.wantingReceipt ≠ some r) (start : Start) :
    Undisturbed r w (w.checkReceipts start) := by
  unfold World.checkReceipts
  split
  · exact of_eq rfl rfl rfl
  · next p hp =>
    have hpr : p ≠ r := by
      rintro rfl
      exact hw hp
    have hneed := (World.wantsReceipt_iff.mp (World.wantingReceipt_eq_some hp).2).2.2.1
    have hparent := ho.parent_of_need hneed
    set w1 := w.modify p fun q => { q with processingReceipt := true }
    have ho1 : w1.Ok := ho.modify (fun _ => rfl) fun _ h => h
    have hp1 : w1.heap p = { w.heap p with processingReceipt := true } := World.modify_heap_self ..
    have h1 : Undisturbed r w w1 := modify hpr (by rw [hparent]; nofun) rfl
    have hq : ((w1.heap p).receiptFetch p).parent ≠ some r := fun h => hpr (Option.some.inj h)
    have hnew : Undisturbed r w1 (w1.newRequest ((w1.heap p).receiptFetch p)) := newRequest ho1 hr hq
    have hlt : p < w1.next := ho.requests_lt p (World.wantingReceipt_eq_some hp).1
    dsimp only
    split
    · refine h1.trans (modify hpr ?_ rfl)
      rw [hp1]
      exact fun h => nomatch hparent.symm.trans h
    · refine (h1.trans hnew).trans (modify hpr ?_ rfl)
      rw [World.newRequest_heap_ne _ _ hlt.ne, hp1]
      exact fun h => nomatch hparent.symm.trans h
    · next _ accepted =>
      have hs := (h1.trans hnew).trans (addHandle (x := w1.next) accepted)
      split
      · exact hs
      · exact hs.trans (of_eq rfl rfl rfl)

lemma checkMain : Undisturbed r w (w.checkMain E) := by
  unfold World.checkMain
  split
  · exact of_eq rfl rfl rfl
  · next m _ =>
    have h1 : Undisturbed r w (w.touch .main m) :=
      of_eq (World.touch_heap ..) (congrArg Loop.requests (World.touch_loop ..))
        (congrArg Loop.attached (World.touch_loop ..))
    dsimp only
    split
    · exact h1.trans (of_eq rfl rfl rfl)
    · split <;> exact h1.trans (of_eq rfl rfl rfl)

lemma done (hx : w.callOf x = r → (w.heap x).processed = true) (hr : (w.heap r).parent = none) :
    Undisturbed r w (w.done x) := by
  refine ⟨rfl, fun _ _ => rfl, fun _ h => h, fun _ _ _ h => h, fun y hy hun hmem => ?_⟩
  have hyx : y ≠ x := by
    rintro rfl
    rw [hx ((World.callOf_eq hr).mpr hy)] at hun
    cases hun
  exact (List.mem_erase_of_ne hyx).mpr hmem

end Undisturbed

namespace World

/-- The running call ends without success, and its caller fetches the receipt of the request. -/
def FailsFor (w : World) (r : ReqId) : Prop :=
  ∃ f c, w.running = some f ∧ f.success = false ∧ w.callers.head? = some c ∧ c.fetching = r

/-- The act is not about the call: it answers none of its requests, ends no transfer of it that is still
to be answered, does not start the fetch of its receipt, and does not give it up. -/
def Apart (w : World) (r : ReqId) : Act → Prop
  | .error x _ => w.callOf x ≠ r
  | .message x _ => w.callOf x ≠ r
  | .curl ok => ok = false → w.FailsFor r → (w.heap r).needReceipt = false
  | .done x => w.callOf x = r → (w.heap x).processed = true
  | .checkReceipts _ => w.wantingReceipt ≠ some r
  | .exit => w.FailsFor r → (w.heap r).needReceipt = false
  | _ => True

/-- **What is not about a call leaves it undisturbed.** -/
theorem undisturbed_step (ho : w.Ok) (hr : r < w.next) (hp : (w.heap r).parent = none)
    (ha : w.Apart r a) (h : w.step E a = some w') : Undisturbed r w w' := by
  cases a <;> simp only [World.step, Option.ite_none_right_eq_some, Option.some.injEq] at h <;>
    obtain ⟨-, rfl⟩ := h
  case call c => exact .call ho hr c
  case process =>
    unfold World.process
    split <;> exact .of_eq rfl rfl rfl
  case enter => exact .of_eq rfl rfl rfl
  case error x text => exact .within ho hp ha (Within.processRequestError w x text)
  case message x m => exact .within ho hp ha (Within.processMessage E w x m)
  case curl ok =>
    cases ok with
    | true => exact .of_eq rfl rfl rfl
    | false => exact .leave ho fun f c hf hs hc hcr => ha rfl ⟨f, c, hf, hs, hc, hcr⟩
  case done x => exact .done ha hp
  case infoEnd => exact .of_eq rfl rfl rfl
  case checkReceipts start => exact .checkReceipts ho hr ha start
  case checkMain => exact .checkMain
  case exit =>
    exact Undisturbed.release.trans
      (.leave ho.release fun f c hf hs hc hcr => ha ⟨f, c, hf, hs, hc, hcr⟩)

/-! ### From stage to stage -/

section Transitions

lemma processMessage_processed : ((processMessage E w r m).heap r).processed = true := by
  have h := Within.processResponse E
    ((w.touch .transfer r).modify r fun q => { q with processed := true }) r m
  have hp := h.processed r (by simp)
  simpa [processMessage] using hp

lemma processRequestError_processed : ((processRequestError w r text).heap r).processed = true := by
  unfold processRequestError
  simp only
  split
  · simp
  · next h _ =>
    have hw := Within.processError ((w.touch .transfer r).modify r fun q =>
      { q with processed := true, errorMsg := q.errorMsg.or (some text) }) r h
    have hp := hw.processed r (by simp)
    simpa using hp

/-- An answer that leaves a request without a receipt to fetch completes it. -/
lemma Waiting.complete (hw : w.Waiting r) (h : Within r w w')
    (hp : (w'.heap r).processed = true) (hn : (w'.heap r).needReceipt = false) : w'.Complete r := by
  refine ⟨hp, hn, fun x hx => ?_⟩
  rw [Request.fixed_parent (h.fixed x)] at hx
  exact absurd hx (hw.childless x)

lemma Waiting.wanting (hw : w.Waiting r) (h : Within r w w')
    (hr : w'.heap r = { w.heap r with processed := true, needReceipt := true, success := true }) :
    w'.Wanting r := by
  refine ⟨by rw [h.requests]; exact hw.listed, ?_, fun x hx => ?_⟩
  · rw [hr]
    simp [Request.wantsReceipt, hw.unmarked]
  · rw [Request.fixed_parent (h.fixed x)] at hx
    exact absurd hx (hw.childless x)

lemma Fetching.answered_all (hw : w.Fetching r c) (h : Within c w w')
    (hc : (w'.heap c).processed = true) :
    ∀ x, (w'.heap x).parent = some r → (w'.heap x).processed = true := by
  intro x hx
  rw [Request.fixed_parent (h.fixed x)] at hx
  by_cases hxc : x = c
  · subst hxc
    exact hc
  · exact h.processed x (hw.answered x hx hxc)

/-- A request that is still to be answered waits, or is the fetch under way. -/
lemma At.awaited {s : Stage} (h : w.At r s) (hr : (w.heap r).parent = none) (hx : w.callOf x = r)
    (hp : (w.heap x).processed = false) : s = .waiting ∧ x = r ∨ s = .fetching x := by
  have hne : ∀ {q : Request}, q.processed = true → q.processed = false → False := by
    intro q h1 h2
    rw [h1] at h2
    cases h2
  rcases (callOf_eq hr).mp hx with rfl | hx
  · cases s with
    | waiting => exact .inl ⟨rfl, rfl⟩
    | wanting => exact (hne (wantsReceipt_iff.mp h.wants).1 hp).elim
    | fetching c => exact (hne h.processed hp).elim
    | complete => exact (hne h.processed hp).elim
  · cases s with
    | waiting => exact absurd hx (h.childless x)
    | wanting => exact (hne (h.answered x hx) hp).elim
    | fetching c =>
      by_cases hxc : x = c
      · subst hxc
        exact .inr rfl
      · exact (hne (h.answered x hx hxc) hp).elim
    | complete => exact (hne (h.answered x hx) hp).elim

/-- Only a call that is wanting is found by `loc_check_receipts`. -/
lemma At.eq_wanting {s : Stage} (h : w.At r s) (hw : (w.heap r).wantsReceipt = true) : s = .wanting := by
  obtain ⟨hp, -, hn, hm⟩ := wantsReceipt_iff.mp hw
  cases s with
  | waiting =>
    rw [h.unanswered] at hp
    cases hp
  | wanting => rfl
  | fetching c =>
    rw [h.marked] at hm
    cases hm
  | complete =>
    rw [h.settled] at hn
    cases hn

lemma Wanting.fetch (ho : w.Ok) (hw : w.Wanting r) (hr : w.wantingReceipt = some r) :
    (w.checkReceipts (.sent true)).Fetching r w.next := by
  have hlt : r < w.next := ho.requests_lt r hw.listed
  obtain ⟨hp, hs, hn, -⟩ := wantsReceipt_iff.mp hw.wants
  have hparent := ho.parent_of_need hn
  set w1 := w.modify r fun q => { q with processingReceipt := true }
  set q := w1.heap r
  have hq : q = { w.heap r with processingReceipt := true } := modify_heap_self ..
  set w2 := (w1.newRequest (q.receiptFetch r)).addHandle w.next true
  -- the callers of a synchronous fetch play no part here
  have hw2 : (w.checkReceipts (.sent true)).heap = w2.heap ∧
      (w.checkReceipts (.sent true)).requests = w2.requests ∧
      (w.checkReceipts (.sent true)).attached = w2.attached := by
    unfold checkReceipts
    rw [hr]
    dsimp only
    split <;> exact ⟨rfl, rfl, rfl⟩
  obtain ⟨hheap, hreq, hatt⟩ := hw2
  have hself : w2.heap r = q := newRequest_heap_ne (w := w1) (q := q.receiptFetch r) hlt.ne
  have hnext : w2.heap w.next = q.receiptFetch r := newRequest_heap_next w1 (q.receiptFetch r)
  have hother : ∀ x, x ≠ w.next → x ≠ r → w2.heap x = w.heap x := by
    intro x hx hxr
    exact (newRequest_heap_ne (w := w1) (q := q.receiptFetch r) hx).trans (modify_heap_ne _ _ _ hxr)
  constructor
  · rw [hreq]
    exact List.mem_append_left _ hw.listed
  · rw [hheap, hself, hq]
    exact hp
  · rw [hheap, hself, hq]
    exact hs
  · rw [hheap, hself, hq]
    exact hn
  · rw [hheap, hself, hq]
  · rw [hheap, hnext]
    rfl
  · rw [hreq]
    exact List.mem_append_right _ List.mem_cons_self
  · rw [hatt]
    exact List.mem_cons_self
  · rw [hheap, hnext]
    rfl
  · intro x hx hxn
    rw [hheap] at hx ⊢
    have hxr : x ≠ r := by
      rintro rfl
      rw [hself, hq] at hx
      exact nomatch hparent.symm.trans hx
    rw [hother x hxn hxr] at hx ⊢
    exact hw.answered x hx

lemma Fetching.complete (hw : w.Fetching r c) (h : Within c w w')
    (hc : (w'.heap c).processed = true) (hp : (w'.heap r).processed = (w.heap r).processed)
    (hn : (w'.heap r).needReceipt = false) : w'.Complete r :=
  ⟨hp.trans hw.processed, hn, hw.answered_all h hc⟩

/-- The answer to the fetch that makes the transaction want its receipt again. -/
lemma Fetching.retry (hw : w.Fetching r c) (h : Within c w w') (hc : (w'.heap c).processed = true)
    {n : ℕ} (hr : w'.heap r = { w.heap r with receiptAttempts := n, processingReceipt := false }) :
    w'.Wanting r := by
  refine ⟨by rw [h.requests]; exact hw.listed, ?_, hw.answered_all h hc⟩
  rw [hr]
  exact wantsReceipt_iff.mpr ⟨hw.processed, hw.success, hw.need, rfl⟩

end Transitions

/-! ### Behind `loc_check_receipts` -/

/-- Behind `loc_check_receipts` no request wants a receipt. -/
def ReceiptsChecked (w : World) : Prop :=
  w.pc = some .checkMain ∨ w.pc = some .exit → w.wantingReceipt = none

lemma pc_goto {pc : Pc} (h : w.pc ≠ none) : (w.goto pc).pc = some pc := by
  unfold World.pc goto at *
  cases hr : w.running with
  | none => simp [hr] at h
  | some f => simp

lemma pc_leave (h : w.pc ≠ none) : w.leave.pc = none ∨ w.leave.pc = some .checkReceipts := by
  unfold World.pc at *
  unfold leave
  split
  · next hr => simp [hr] at h
  · split
    · exact .inl rfl
    · exact .inr rfl

lemma wantingReceipt_congr (hheap : w'.heap = w.heap) (hreq : w'.requests = w.requests) :
    w'.wantingReceipt = w.wantingReceipt := by
  unfold wantingReceipt
  rw [hheap, hreq]

lemma ReceiptsChecked.of_pc {pc : Pc} (h : w.pc = some pc) (hpc : pc ≠ .checkMain ∧ pc ≠ .exit) :
    w.ReceiptsChecked := by
  rintro (h' | h') <;> rw [h] at h' <;> cases h'
  · exact absurd rfl hpc.1
  · exact absurd rfl hpc.2

lemma ReceiptsChecked.of_pc_none (h : w.pc = none) : w.ReceiptsChecked := by
  rintro (h' | h') <;> rw [h] at h' <;> cases h'

lemma ReceiptsChecked.leave (h : w.pc ≠ none) : w.leave.ReceiptsChecked := by
  rcases pc_leave h with h | h
  · exact .of_pc_none h
  · exact .of_pc h (by decide)

lemma ReceiptsChecked.call (h : w.pc = none ∨ w.pc = some .perform) (c : Call) :
    (w.call c).ReceiptsChecked := by
  have hpc : ∀ v : World, v.running = w.running → v.ReceiptsChecked := by
    intro v hv
    have hv' : v.pc = w.pc := by
      unfold World.pc
      rw [hv]
    rcases h with h | h
    · exact .of_pc_none (hv'.trans h)
    · exact .of_pc (hv'.trans h) (by decide)
  unfold World.call
  split
  · exact hpc _ rfl
  · exact hpc _ rfl
  · dsimp only
    split
    · exact hpc _ rfl
    · split
      · exact hpc _ rfl
      · exact .of_pc (show _ = some .waitAgain from rfl) (by decide)

/-- **Every step keeps it so.** -/
theorem ReceiptsChecked.step (hw : w.ReceiptsChecked) (h : w.step E a = some w') :
    w'.ReceiptsChecked := by
  cases a <;> simp only [World.step, Option.ite_none_right_eq_some, Option.some.injEq] at h <;>
    obtain ⟨hpc, rfl⟩ := h
  case call c => exact .call hpc c
  case process =>
    unfold World.process
    split
    · exact hw
    · exact .of_pc (show _ = some .waitAgain from rfl) (by decide)
  case enter =>
    have hsome : w.pc ≠ none := by simp [hpc]
    split
    · exact .of_pc (pc_goto hsome) (by decide)
    · exact .of_pc (pc_goto hsome) (by decide)
  case error x text =>
    have h := congrArg Loop.running (Within.processRequestError w x text).loop
    have hpc' : (processRequestError w x text).pc = w.pc := congrArg (Option.map Frame.pc) h
    exact .of_pc (hpc'.trans hpc.1) (by decide)
  case message x m =>
    have h := congrArg Loop.running (Within.processMessage E w x m).loop
    have hpc' : (processMessage E w x m).pc = w.pc := congrArg (Option.map Frame.pc) h
    exact .of_pc (hpc'.trans hpc.1) (by decide)
  case curl ok =>
    have hsome : w.pc ≠ none := by simp [hpc]
    split
    · exact .of_pc (pc_goto hsome) (by decide)
    · exact .leave hsome
  case done x => exact .of_pc hpc.1 (by decide)
  case infoEnd => exact .of_pc (pc_goto (by simp [hpc])) (by decide)
  case checkReceipts start =>
    unfold World.checkReceipts
    split
    · next hnone => exact fun _ => hnone
    · dsimp only
      split
      · exact .of_pc hpc (by decide)
      · exact .of_pc hpc (by decide)
      · split
        · exact .of_pc hpc (by decide)
        · exact .of_pc (show _ = some .waitAgain from rfl) (by decide)
  case checkMain =>
    have hnone := hw (.inl hpc)
    have hsome : w.pc ≠ none := by simp [hpc]
    unfold World.checkMain
    split
    · exact fun _ => hnone
    · next m _ =>
      have hnone' : (w.touch .main m).wantingReceipt = none :=
        (wantingReceipt_congr (touch_heap ..) (congrArg Loop.requests (touch_loop ..))).trans hnone
      dsimp only
      split
      · exact fun _ => hnone'
      · split
        · have hrun : (w.touch .main m).pc = w.pc :=
            congrArg (Option.map Frame.pc) (congrArg Loop.running (touch_loop ..))
          exact .of_pc (pc_goto (by rwa [hrun])) (by decide)
        · exact fun _ => hnone'
  case exit =>
    have hsome : w.release.pc ≠ none := by
      show w.pc ≠ none
      simp [hpc]
    exact .leave hsome

end World

end Libaergo
