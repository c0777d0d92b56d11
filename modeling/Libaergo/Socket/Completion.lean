import Libaergo.Socket.Answers
import Libaergo.Socket.Transfers

/-!
# The completion of asynchronous calls

The callback of a call is invoked by the handler of its last answer, if at all: a rejection, a message that
does not decode, an error text for a transaction or for `aergo_get_receipt`, and a connection that ends
without an answer pass it by, and so does a receipt fetch that cannot be begun.  A late answer for a request
that was released before may come a second time for a call that has got its address, so that the released
requests are to be spared as well.
-/

namespace Libaergo

open Lib

variable {E : Env} {w w' : World} {a : Act} {r : ReqId}

/-- The act serves the call: libcurl takes its transfers, each of them is answered once before it ends,
with a message that the handler reports or with an error text that it handles, and the fetch of a receipt
is begun. -/
def World.Serves (E : Env) (w : World) (r : ReqId) : Act → Prop
  | .call c => w.next = r → c.start ≠ .sent false
  | .error x _ => w.callOf x = r → (w.heap x).processed = false ∧ (w.heap x).processError ≠ none
  | .message x m => w.callOf x = r → (w.heap x).processed = false ∧ w.reports E x m = true
  | .done x => w.callOf x = r → (w.heap x).processed = true
  | .checkReceipts start => w.wantingReceipt = some r → start = .sent true
  | _ => True

instance (w : World) (r : ReqId) (a : Act) : Decidable (w.Serves E r a) :=
  match a with
  | .call c => inferInstanceAs (Decidable (w.next = r → c.start ≠ .sent false))
  | .error x _ =>
    inferInstanceAs (Decidable (w.callOf x = r → (w.heap x).processed = false ∧ (w.heap x).processError ≠ none))
  | .message x m =>
    inferInstanceAs (Decidable (w.callOf x = r → (w.heap x).processed = false ∧ w.reports E x m = true))
  | .done x => inferInstanceAs (Decidable (w.callOf x = r → (w.heap x).processed = true))
  | .checkReceipts start => inferInstanceAs (Decidable (w.wantingReceipt = some r → start = .sent true))
  | .process | .enter | .curl _ | .infoEnd | .checkMain | .exit => .isTrue trivial

def Stage.invocations : Stage → ℕ
  | .complete => 1
  | _ => 0

/-- The call is at some stage, and its callback was invoked as often as the stage says. -/
def World.OnCourse (w : World) (r : ReqId) : Prop :=
  ∃ s : Stage, w.At r s ∧ w.invocations r = s.invocations

/-- What holds of an instance as long as the call is served. -/
structure World.Served (r : ReqId) (w : World) : Prop where
  ok : w.Ok
  checked : w.ReceiptsChecked
  fresh : w.next ≤ r → w.invocations r = 0
  course : r ∈ w.accepted → (w.heap r).keepActive = false → w.OnCourse r

namespace World

/-! ### Answers to the call -/

section Answers

variable (ho : w.Ok) (hcb : (w.heap r).callback ≠ none) (hp : (w.heap r).parent = none)

include ho hcb hp

/-- A message that is reported brings the call to its next stage. -/
lemma OnCourse.message (hw : w.OnCourse r) {x : ReqId} {m : Bytes} (hx : w.callOf x = r)
    (hun : (w.heap x).processed = false) (hm : w.reports E x m = true) :
    (processMessage E w x m).OnCourse r := by
  obtain ⟨s, hs, hcount⟩ := hw
  have hwithin := Within.processMessage E w x m
  have hproc : ((processMessage E w x m).heap x).processed = true := processMessage_processed
  rcases hs.awaited hp hx hun with ⟨rfl, rfl⟩ | rfl
  · by_cases ht : (w.heap x).processResponse.IsTransaction
    · obtain ⟨response, hdec, herr⟩ : ∃ response, E.codec.commit m = some response ∧
          response.error = 0 := by
        unfold World.reports at hm
        rcases ht with ht | ht <;> rw [ht] at hm <;> simpa [Option.any_eq_true] using hm
      refine ⟨.wanting, hs.wanting hwithin (processMessage_accepted ht hdec herr), ?_⟩
      rw [invocations_congr (processMessage_transaction_log ht)]
      exact hcount
    · have hneed : ((processMessage E w x m).heap x).needReceipt = false := by
        by_contra hn
        rcases hwithin.need x (by simpa using hn) with hn | ⟨-, ht'⟩
        · rw [hs.unneeded] at hn
          cases hn
        · exact ht ht'
      refine ⟨.complete, hs.complete hwithin hproc hneed, ?_⟩
      have h := processMessage_reports hcb ht hm
      rw [hx, hcount] at h
      exact h
  · have hchild : (w.heap x).parent = some r := hs.child
    obtain ⟨hh, -, -, hcb', -⟩ := ho.child_fields hchild
    have hrx : r ≠ x := by
      rintro rfl
      exact nomatch hp.symm.trans hchild
    have hheap := processMessage_settles (E := E) (m := m) hh hchild hrx
    refine ⟨.complete, hs.complete hwithin hproc ?_ ?_, ?_⟩
    · rw [hheap]
    · rw [hheap]
    · have ht : ¬ (w.heap x).processResponse.IsTransaction := by
        rw [hh]
        rintro (h | h) <;> cases h
      have h := processMessage_reports (hcb' ▸ hcb) ht hm
      rw [hx, hcount] at h
      exact h

lemma OnCourse.error (hw : w.OnCourse r) {x : ReqId} {text : Bytes} (hx : w.callOf x = r)
    (hun : (w.heap x).processed = false) (hh : (w.heap x).processError ≠ none) :
    (processRequestError w x text).OnCourse r := by
  obtain ⟨s, hs, hcount⟩ := hw
  have hwithin := Within.processRequestError w x text
  have hproc : ((processRequestError w x text).heap x).processed = true :=
    processRequestError_processed
  rcases hs.awaited hp hx hun with ⟨rfl, rfl⟩ | rfl
  · have hneed : ((processRequestError w x text).heap x).needReceipt = false := by
      by_contra hn
      rcases hwithin.need x (by simpa using hn) with hn | ⟨-, ht⟩
      · rw [hs.unneeded] at hn
        cases hn
      · exact ho.errors x hh ht
    refine ⟨.complete, hs.complete hwithin hproc hneed, ?_⟩
    rw [processRequestError_reports hcb hp hh, hcount]
    rfl
  · have hchild : (w.heap x).parent = some r := hs.child
    obtain ⟨-, hh, -, hcb', -⟩ := ho.child_fields hchild
    have hrx : r ≠ x := by
      rintro rfl
      exact nomatch hp.symm.trans hchild
    by_cases ht : txNotFound (((w.heap x).errorMsg.or (some text)).getD []) = true ∧
        (w.heap r).receiptAttempts + 1 < 10
    · obtain ⟨hlog, hheap⟩ := processRequestError_retry hh hchild hrx ht.1 ht.2
      refine ⟨.wanting, hs.retry hwithin hproc hheap, ?_⟩
      rw [invocations_congr hlog]
      exact hcount
    · obtain ⟨hneed, hproc', hinv⟩ := processRequestError_giveUp hh hchild hrx ht
      refine ⟨.complete, hs.complete hwithin hproc hproc' hneed, ?_⟩
      rw [hinv (hcb' ▸ hcb), hcount]
      rfl

end Answers

/-! ### The other steps -/

lemma call_log (c : Call) : (w.call c).log = w.log := by
  have h := w.called c
  generalize w.call c = v at h ⊢
  cases h <;> rfl

lemma checkReceipts_log (start : Start) : (w.checkReceipts start).log = w.log := by
  have h := w.checked start
  generalize w.checkReceipts start = v at h ⊢
  cases h <;> rfl

lemma checkMain_log : (w.checkMain E).log = w.log := by
  have h := w.mainChecked E
  generalize w.checkMain E = v at h ⊢
  cases h with
  | noMain => rfl
  | settled => exact touch_log ..
  | waits => exact touch_log ..
  | ends => exact touch_log ..

lemma step_invocations (h : w.step E a = some w') (hm : ∀ x m, a = .message x m → w.callOf x ≠ r)
    (he : ∀ x text, a = .error x text → w.callOf x ≠ r) : w'.invocations r = w.invocations r := by
  cases a <;> simp only [World.step, Option.ite_none_right_eq_some, Option.some.injEq] at h <;>
    obtain ⟨-, rfl⟩ := h
  case call c => exact invocations_congr (call_log c) r
  case process =>
    apply invocations_congr
    unfold World.process
    split <;> rfl
  case error x text =>
    exact (Within.processRequestError w x text).invocations r (he x text rfl).symm
  case message x m => exact (Within.processMessage E w x m).invocations r (hm x m rfl).symm
  case curl ok =>
    apply invocations_congr
    split
    · rfl
    · exact leave_log w
  case checkReceipts start => exact invocations_congr (checkReceipts_log start) r
  case checkMain => exact invocations_congr checkMain_log r
  case exit => exact invocations_congr (leave_log w.release) r
  all_goals rfl

lemma call_next (c : Call) : w.next ≤ (w.call c).next := by
  have h := w.called c
  generalize w.call c = v at h ⊢
  cases h with
  | noRequest => exact le_rfl
  | _ => exact Nat.le_succ _

lemma call_made {c : Call} (hs : c.start ≠ .noRequest) :
    (w.call c).heap w.next = c.request ∧ (w.call c).next = w.next + 1 := by
  have hnext : (w.newRequest c.request).heap w.next = c.request := newRequest_heap_next ..
  have h := w.called c
  generalize w.call c = v at h ⊢
  cases h with
  | noRequest h => exact absurd h hs
  | noHandle => exact ⟨hnext, rfl⟩
  | async => exact ⟨hnext, rfl⟩
  | inside => exact ⟨hnext, rfl⟩
  | waits => exact ⟨hnext, rfl⟩

lemma checkReceipts_next (start : Start) : w.next ≤ (w.checkReceipts start).next := by
  have h := w.checked start
  generalize w.checkReceipts start = v at h ⊢
  cases h with
  | nothing => exact le_rfl
  | noRequest => exact le_rfl
  | _ => exact Nat.le_succ _

lemma checkMain_loop : (w.checkMain E).loop = { w.loop with running := (w.checkMain E).running } := by
  have htouch : ∀ m, (w.touch .main m).loop = w.loop := fun m => w.touch_loop m .main
  simp only [loop, Loop.mk.injEq] at htouch
  have h := w.mainChecked E
  generalize w.checkMain E = v at h ⊢
  cases h with
  | noMain => rfl
  | settled f m => simp [loop, htouch m]
  | waits f m => simp [loop, htouch m]
  | ends f m => simp [loop, htouch m]

lemma checkReceipts_accepted (start : Start) : (w.checkReceipts start).accepted = w.accepted := by
  have h := w.checked start
  generalize w.checkReceipts start = v at h ⊢
  cases h <;> rfl

/-- Identifiers go up, and only an asynchronous call is accepted. -/
lemma step_next (h : w.step E a = some w') :
    w.next ≤ w'.next ∧ (w'.accepted = w.accepted ∨ ∃ c, a = .call c) := by
  cases a <;> simp only [World.step, Option.ite_none_right_eq_some, Option.some.injEq] at h <;>
    obtain ⟨-, rfl⟩ := h
  case call c => exact ⟨call_next c, .inr ⟨c, rfl⟩⟩
  case process =>
    unfold World.process
    split <;> exact ⟨le_rfl, .inl rfl⟩
  case error x text =>
    have h := (Within.processRequestError w x text).loop
    exact ⟨(congrArg Loop.next h).ge, .inl (congrArg Loop.accepted h)⟩
  case message x m =>
    have h := (Within.processMessage E w x m).loop
    exact ⟨(congrArg Loop.next h).ge, .inl (congrArg Loop.accepted h)⟩
  case curl ok =>
    split
    · exact ⟨le_rfl, .inl rfl⟩
    · exact ⟨w.leave_next.ge, .inl w.leave_accepted⟩
  case checkReceipts start => exact ⟨checkReceipts_next start, .inl (checkReceipts_accepted start)⟩
  case checkMain =>
    have h := checkMain_loop (E := E) (w := w)
    exact ⟨(congrArg Loop.next h).ge, .inl (congrArg Loop.accepted h)⟩
  case exit => exact ⟨w.release.leave_next.ge, .inl w.release.leave_accepted⟩
  all_goals exact ⟨le_rfl, .inl rfl⟩

lemma step_next_eq (h : w.step E a = some w') :
    w'.next = w.next ∨ (∃ c, a = .call c) ∨ ∃ start, a = .checkReceipts start := by
  cases a <;> simp only [World.step, Option.ite_none_right_eq_some, Option.some.injEq] at h <;>
    obtain ⟨-, rfl⟩ := h
  case call c => exact .inr (.inl ⟨c, rfl⟩)
  case checkReceipts start => exact .inr (.inr ⟨start, rfl⟩)
  case process =>
    unfold World.process
    split <;> exact .inl rfl
  case error x text => exact .inl (congrArg Loop.next (Within.processRequestError w x text).loop)
  case message x m => exact .inl (congrArg Loop.next (Within.processMessage E w x m).loop)
  case curl ok =>
    split
    · exact .inl rfl
    · exact .inl w.leave_next
  case checkMain => exact .inl (congrArg Loop.next checkMain_loop)
  case exit => exact .inl w.release.leave_next
  all_goals exact .inl rfl

lemma OnCourse.call (ho : w.Ok) {c : Call} (hc : c.start ≠ .sent false)
    (hnew : w.next ∈ (w.call c).accepted) (h0 : w.invocations w.next = 0) :
    (w.call c).OnCourse w.next := by
  have hold : w.next ∉ w.accepted := fun h => (ho.accepted _ h).1.false
  refine ⟨.waiting, ?_, (invocations_congr (call_log c) _).trans h0⟩
  have hheap : ∀ x, x ≠ w.next → (w.newRequest c.request).heap x = w.heap x :=
    fun x hx => newRequest_heap_ne _ _ hx
  have hnext : (w.newRequest c.request).heap w.next = c.request := newRequest_heap_next ..
  have hchildless : ∀ x, ((w.newRequest c.request).heap x).parent ≠ some w.next := by
    intro x hx
    by_cases hxn : x = w.next
    · subst hxn
      rw [hnext] at hx
      cases hx
    · rw [hheap x hxn] at hx
      exact (ho.child x _ hx).1.false
  unfold World.call at hnew ⊢
  split at hnew
  · exact absurd hnew hold
  · exact absurd hnew hold
  · next accepted hs =>
    dsimp only at hnew ⊢
    split at hnew
    · next hcb =>
      obtain rfl : accepted = true := by
        cases accepted with
        | true => rfl
        | false => exact absurd hs hc
      rw [if_pos hcb]
      refine ⟨List.mem_append_right _ List.mem_cons_self, List.mem_cons_self, ?_, ?_, ?_, hchildless⟩
      · exact congrArg Request.processed hnext
      · exact congrArg Request.needReceipt hnext
      · exact congrArg Request.processingReceipt hnext
    · split at hnew <;> exact absurd hnew hold

lemma call_accepted (c : Call) {x : ReqId} (hx : x ∈ (w.call c).accepted) :
    x ∈ w.accepted ∨ x = w.next := by
  have h := w.called c
  generalize w.call c = v at h hx
  cases h with
  | async => exact (List.mem_cons.mp hx).symm
  | _ => exact .inl hx

lemma OnCourse.step (ho : w.Ok) (hr : r ∈ w.accepted) (hw : w.OnCourse r) (ha : w.Serves E r a)
    (h : w.step E a = some w') : w'.OnCourse r := by
  obtain ⟨hlt, hcb, hp⟩ := ho.accepted r hr
  have hsync : ¬ w.FailsFor r := by
    rintro ⟨f, c, -, -, hc, rfl⟩
    exact hcb (ho.callers c (List.mem_of_mem_head? hc)).2.1
  have hapart : w.Apart r a → w'.OnCourse r := by
    intro hapart
    obtain ⟨s, hs, hcount⟩ := hw
    refine ⟨s, hs.undisturbed (undisturbed_step ho hlt hp hapart h), ?_⟩
    rw [step_invocations h, hcount]
    · rintro x m rfl
      exact hapart
    · rintro x text rfl
      exact hapart
  cases a with
  | message x m =>
    by_cases hx : w.callOf x = r
    · simp only [World.step, Option.ite_none_right_eq_some, Option.some.injEq] at h
      obtain ⟨-, rfl⟩ := h
      obtain ⟨hun, hm⟩ := ha hx
      exact hw.message ho hcb hp hx hun hm
    · exact hapart hx
  | error x text =>
    by_cases hx : w.callOf x = r
    · simp only [World.step, Option.ite_none_right_eq_some, Option.some.injEq] at h
      obtain ⟨-, rfl⟩ := h
      obtain ⟨hun, hh⟩ := ha hx
      exact hw.error ho hcb hp hx hun hh
    · exact hapart hx
  | checkReceipts start =>
    by_cases hwant : w.wantingReceipt = some r
    · obtain rfl := ha hwant
      simp only [World.step, Option.ite_none_right_eq_some, Option.some.injEq] at h
      obtain ⟨-, rfl⟩ := h
      obtain ⟨s, hs, hcount⟩ := hw
      obtain rfl := hs.eq_wanting (wantingReceipt_eq_some hwant).2
      refine ⟨.fetching w.next, hs.fetch ho hwant, ?_⟩
      rw [invocations_congr (checkReceipts_log _)]
      exact hcount
    · exact hapart hwant
  | curl ok => exact hapart fun _ hf => absurd hf hsync
  | done x => exact hapart ha
  | exit => exact hapart fun hf => absurd hf hsync
  | call c => exact hapart trivial
  | process => exact hapart trivial
  | enter => exact hapart trivial
  | infoEnd => exact hapart trivial
  | checkMain => exact hapart trivial

/-- **Every step that serves the call keeps it on its course.** -/
theorem Served.step (hw : w.Served r) (ha : w.Serves E r a) (h : w.step E a = some w') :
    w'.Served r := by
  have ho := hw.ok
  obtain ⟨hnext, hacc⟩ := step_next h
  refine ⟨ho.step h, hw.checked.step h, fun hr => ?_, fun hr hk => ?_⟩
  · have hlt : w.next ≤ r := hnext.trans hr
    have hcall : ∀ x ∈ w.attached, w.callOf x ≠ r := by
      rintro x hx rfl
      have hxlt := ho.attached_lt x hx
      unfold World.callOf at hlt
      cases hp : (w.heap x).parent with
      | none =>
        rw [hp] at hlt
        exact (hxlt.trans_le hlt).false
      | some p =>
        rw [hp] at hlt
        exact ((ho.child x p hp).1.trans_le hlt).false
    rw [step_invocations h]
    · exact hw.fresh hlt
    · rintro x m rfl
      simp only [World.step, Option.ite_none_right_eq_some] at h
      exact hcall x h.1.2.1
    · rintro x text rfl
      simp only [World.step, Option.ite_none_right_eq_some] at h
      exact hcall x h.1.2
  · by_cases hold : r ∈ w.accepted
    · have hk' : (w.heap r).keepActive = false := by
        rwa [Request.fixed_keepActive (step_fixed h (ho.accepted r hold).1)] at hk
      exact (hw.course hold hk').step ho hold ha h
    · obtain ⟨c, rfl⟩ := hacc.resolve_left fun heq => hold (heq ▸ hr)
      simp only [World.step, Option.ite_none_right_eq_some, Option.some.injEq] at h
      obtain ⟨-, rfl⟩ := h
      obtain rfl := (call_accepted c hr).resolve_left hold
      exact .call ho (ha rfl) hr (hw.fresh le_rfl)

lemma Served.start (receipts : ℕ → TransactionReceipt) (accounts : ℕ → AccountState) (r : ReqId) :
    (World.start receipts accounts).Served r where
  ok := .start receipts accounts
  checked := .of_pc_none rfl
  fresh _ := rfl
  course h _ := nomatch h

/-! ### After the release -/

lemma call_requests (c : Call) :
    (w.call c).requests = if c.start = .noRequest then w.requests else w.requests ++ [w.next] := by
  have h := w.called c
  generalize w.call c = v at h ⊢
  cases h with
  | noRequest hs => rw [if_pos hs]
  | noHandle hs => rw [if_neg (by rw [hs]; nofun)]; rfl
  | async accepted hs => rw [if_neg (by rw [hs]; nofun)]; rfl
  | inside accepted hs => rw [if_neg (by rw [hs]; nofun)]; rfl
  | waits accepted hs => rw [if_neg (by rw [hs]; nofun)]; rfl

lemma checkReceipts_requests (start : Start) :
    (w.checkReceipts start).requests =
      if w.wantingReceipt = none ∨ start = .noRequest then w.requests else w.requests ++ [w.next] := by
  have hnew : ∀ {r : ReqId}, w.wantingReceipt = some r → start ≠ .noRequest →
      ¬ (w.wantingReceipt = none ∨ start = .noRequest) := by
    rintro r hr hs (h | h)
    · rw [hr] at h
      cases h
    · exact hs h
  have h := w.checked start
  generalize w.checkReceipts start = v at h ⊢
  cases h with
  | nothing h => rw [if_pos (.inl h)]; rfl
  | noRequest r hr hs => rw [if_pos (.inr hs)]; rfl
  | noHandle r hr hs => rw [if_neg (hnew hr (by rw [hs]; nofun))]; rfl
  | async r accepted hr hs => rw [if_neg (hnew hr (by rw [hs]; nofun))]; rfl
  | nested r accepted hr hs => rw [if_neg (hnew hr (by rw [hs]; nofun))]; rfl

/-- **What a step does to the list of requests.** -/
lemma step_requests_eq (h : w.step E a = some w') :
    w'.requests = match a with
      | .call c => if c.start = .noRequest then w.requests else w.requests ++ [w.next]
      | .checkReceipts start =>
        if w.wantingReceipt = none ∨ start = .noRequest then w.requests else w.requests ++ [w.next]
      | .exit => w.release.requests
      | _ => w.requests := by
  cases a <;> simp only [World.step, Option.ite_none_right_eq_some, Option.some.injEq] at h <;>
    obtain ⟨-, rfl⟩ := h
  case call c => exact call_requests c
  case process =>
    unfold World.process
    split <;> rfl
  case error y text => exact (Within.processRequestError w y text).requests
  case message y m => exact (Within.processMessage E w y m).requests
  case curl ok =>
    split
    · rfl
    · exact w.leave_requests
  case checkReceipts start => exact checkReceipts_requests start
  case checkMain => exact congrArg Loop.requests (checkMain_loop (E := E))
  case exit => exact w.release.leave_requests
  all_goals rfl

lemma step_requests (h : w.step E a = some w') {x : ReqId} (hx : x ∈ w'.requests) :
    x ∈ w.requests ∨ x = w.next := by
  have hnew : ∀ {p : Prop} [Decidable p], x ∈ (if p then w.requests else w.requests ++ [w.next]) →
      x ∈ w.requests ∨ x = w.next := by
    intro p _ hx
    split at hx
    · exact .inl hx
    · exact (List.mem_append.mp hx).imp_right List.mem_singleton.mp
  rw [step_requests_eq h] at hx
  cases a with
  | call c => exact hnew hx
  | checkReceipts start => exact hnew hx
  | exit => exact .inl (List.mem_of_mem_filter hx)
  | _ => exact .inl hx

lemma step_accepted (h : w.step E a = some w') (hr : r ∈ w.accepted) : r ∈ w'.accepted := by
  rcases (step_next h).2 with heq | ⟨c, rfl⟩
  · rwa [heq]
  · simp only [World.step, Option.ite_none_right_eq_some, Option.some.injEq] at h
    obtain ⟨-, rfl⟩ := h
    have h := w.called c
    generalize w.call c = v at h ⊢
    cases h with
    | async => exact List.mem_cons_of_mem _ hr
    | _ => exact hr

lemma OnCourse.complete (hw : w.OnCourse r) (hp : (w.heap r).parent = none)
    (hover : ∀ x ∈ w.attached, w.callOf x ≠ r) (hchecked : w.wantingReceipt = none) :
    w.Complete r := by
  obtain ⟨s, hs, -⟩ := hw
  cases s with
  | waiting => exact absurd ((callOf_eq hp).mpr (.inl rfl)) (hover r hs.attached)
  | wanting =>
    have h := List.find?_eq_none.mp hchecked r hs.listed
    exact absurd hs.wants h
  | fetching c => exact absurd (callOf_child hs.child) (hover c hs.child_attached)
  | complete => exact hs

/-- A call that is served and whose request is released. -/
structure Finished (r : ReqId) (w : World) : Prop where
  served : w.Served r
  accepted : r ∈ w.accepted
  ended : (w.heap r).keepActive = false
  released : r ∉ w.requests

lemma Finished.step (hw : w.Finished r) (ha : w.Serves E r a) (h : w.step E a = some w') :
    w'.Finished r := by
  have hlt := (hw.served.ok.accepted r hw.accepted).1
  refine ⟨hw.served.step ha h, step_accepted h hw.accepted, ?_, fun hmem => ?_⟩
  · rw [Request.fixed_keepActive (step_fixed h hlt)]
    exact hw.ended
  · rcases step_requests h hmem with hmem | rfl
    · exact hw.released hmem
    · exact hlt.false

lemma Finished.once (hw : w.Finished r) : w.invocations r = 1 := by
  obtain ⟨s, hs, hcount⟩ := hw.served.course hw.accepted hw.ended
  cases s with
  | waiting => exact absurd hs.listed hw.released
  | wanting => exact absurd hs.listed hw.released
  | fetching c => exact absurd hs.listed hw.released
  | complete => exact hcount

lemma Served.exit (hw : w.Served r) (hr : r ∈ w.accepted) (hk : (w.heap r).keepActive = false)
    (hover : ∀ x ∈ w.attached, w.callOf x ≠ r) (ha : w.Serves E r .exit)
    (h : w.step E .exit = some w') : w'.Finished r := by
  obtain ⟨hlt, -, hp⟩ := hw.ok.accepted r hr
  refine ⟨hw.step ha h, step_accepted h hr, ?_, ?_⟩
  · rwa [Request.fixed_keepActive (step_fixed h hlt)]
  · simp only [World.step, Option.ite_none_right_eq_some, Option.some.injEq] at h
    obtain ⟨hpc, rfl⟩ := h
    have hc := (hw.course hr hk).complete hp hover (hw.checked (.inr hpc))
    rw [leave_requests]
    intro hmem
    have hrel := (List.mem_filter.mp hmem).2
    simp [Request.releasable, hc.processed, hc.settled, hk] at hrel

end World

variable {receipts : ℕ → TransactionReceipt} {accounts : ℕ → AccountState}

/-- **An asynchronous call completes exactly once.**  When the loop comes to `loc_exit` after the last
transfer of a call that was served all along, in a run that spares the released requests, the callback of
the call has been invoked once and its request is released, and every transfer has its request; none of
this changes any more. -/
theorem completed_exactly_once {as bs : List Act} {t : World}
    (hrun : run (World.step E) (.start receipts accounts) as = some w)
    (hrest : run (World.step E) w (.exit :: bs) = some t)
    (hr : r ∈ w.accepted) (hk : (w.heap r).keepActive = false)
    (hover : ∀ x ∈ w.attached, w.callOf x ≠ r)
    (hserves : Every (World.step E) (fun w a => w.Serves E r a ∧ w.SparesReleased a)
      (.start receipts accounts) (as ++ .exit :: bs)) :
    t.invocations r = 1 ∧ r ∉ t.requests ∧ t.TransfersLive := by
  have hspared : t.Spared :=
    spared_of_sparesReleased (run_append_eq_some.mpr ⟨w, hrun, hrest⟩) (hserves.mono fun _ _ h => h.2)
  obtain ⟨has, hbs⟩ := every_append.mp (hserves.mono fun _ _ h => h.1)
  obtain ⟨hexit, hbs⟩ := hbs w hrun
  obtain ⟨w₁, hstep, hrest⟩ := run_cons_eq_some.mp hrest
  have hw : w.Served r :=
    run_invariant (fun _ _ _ hw ha h => World.Served.step hw ha h) (.start receipts accounts r) has hrun
  have hfin : t.Finished r :=
    run_invariant (fun _ _ _ hw ha h => World.Finished.step hw ha h)
      (hw.exit hr hk hover hexit hstep) (hbs w₁ hstep) hrest
  exact ⟨hfin.once, hfin.released, hspared.live⟩

/-- An asynchronous transfer, accepted at the first attempt, whose receipt comes at the second. -/
def transferWithRetry : List Act :=
  [.call asyncTransfer, .process, .enter, .message 0 acceptedAnswer, .curl true, .done 0, .infoEnd,
   .checkReceipts (.sent true), .checkReceipts .noRequest, .checkMain, .exit, .process, .enter,
   .error 1 txNotFoundText, .curl true, .done 1, .infoEnd, .checkReceipts (.sent true),
   .checkReceipts .noRequest, .checkMain, .exit, .process, .enter, .message 2 receiptAnswer,
   .curl true, .done 2, .infoEnd, .checkReceipts .noRequest, .checkMain]

theorem transferWithRetry_completes :
    ∃ w t, run (World.step sampleEnv) newInstance transferWithRetry = some w ∧
      run (World.step sampleEnv) w [.exit] = some t ∧ t.invocations 0 = 1 ∧ 0 ∉ t.requests ∧
      t.TransfersLive := by
  have hrun : ∃ w, run (World.step sampleEnv) newInstance transferWithRetry = some w ∧
      (∃ t, run (World.step sampleEnv) w [.exit] = some t) ∧ 0 ∈ w.accepted ∧
      (w.heap 0).keepActive = false ∧ ∀ x ∈ w.attached, w.callOf x ≠ 0 :=
    ⟨_, rfl, ⟨_, rfl⟩, by decide, by decide, by decide⟩
  have hserves : Every (World.step sampleEnv) (fun w a => w.Serves sampleEnv 0 a ∧ w.SparesReleased a)
      newInstance (transferWithRetry ++ [.exit]) := by decide
  obtain ⟨w, hw, ⟨t, ht⟩, hr, hk, hover⟩ := hrun
  exact ⟨w, t, hw, ht, completed_exactly_once hw ht hr hk hover hserves⟩

def transferRejected : List Act :=
  [.call asyncTransfer, .process, .enter, .message 0 nonceTooLowAnswer, .curl true, .done 0, .infoEnd,
   .checkReceipts .noRequest, .checkMain, .exit]

/-- **A rejected transfer ends without a word**: it is released and its callback is never invoked. -/
theorem rejected_transfer_not_reported :
    ∃ w, run (World.step sampleEnv) newInstance transferRejected = some w ∧ 0 ∈ w.accepted ∧
      (w.heap 0).keepActive = false ∧ w.attached = [] ∧ w.requests = [] ∧ w.invocations 0 = 0 :=
  ⟨_, rfl, by decide, by decide, by decide, by decide, by decide⟩

end Libaergo
