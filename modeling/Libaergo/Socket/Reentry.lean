import Libaergo.Socket.Wellformed

/-!
# The pointers of a waiting call

A call of `aergo_process_requests__internal` that fetches the receipt of a synchronous transaction keeps
its `main_request` and its loop variable while the function runs again, and that run sweeps the same
list.  The transaction is the main request of the caller; the answer to the fetch clears its
`need_receipt`, and so the sweep releases it.
-/

namespace Libaergo

open Lib

variable {E : Env} {w w' : World} {a : Act}

/-- No released request was used as main request, as loop variable or as parent. -/
def World.LoopClean (w : World) : Prop := ∀ u ∈ w.uses, u.1 = .transfer

instance (w : World) : Decidable w.LoopClean := by
  unfold World.LoopClean
  infer_instance

/-- When a request has an answer, its receipt is still wanted. -/
def Request.unsettled (q : Request) : Bool := !q.processed || q.needReceipt

/-- `need_receipt` is still set, at `loc_exit`, for the transactions that the waiting calls fetch receipts
for and for those whose fetch is still to be answered; the main request of a waiting call is not answered,
or needs its receipt.  A fetch is answered once. -/
def World.WantedAtExit (w : World) : Act → Prop
  | .exit =>
    (∀ c ∈ w.callers, (w.heap c.fetching).needReceipt = true ∧
      ∀ m ∈ c.main, (w.heap m).unsettled = true) ∧
    ∀ x ∈ w.attached, (w.heap x).processed = false →
      ∀ p ∈ (w.heap x).parent, (w.heap p).needReceipt = true
  | .error x _ => (w.heap x).parent ≠ none → (w.heap x).processed = false
  | .message x _ => (w.heap x).parent ≠ none → (w.heap x).processed = false
  | _ => True

instance (w : World) (a : Act) : Decidable (w.WantedAtExit a) :=
  match a with
  | .exit =>
    inferInstanceAs (Decidable ((∀ c ∈ w.callers, (w.heap c.fetching).needReceipt = true ∧
        ∀ m ∈ c.main, (w.heap m).unsettled = true) ∧
      ∀ x ∈ w.attached, (w.heap x).processed = false →
        ∀ p ∈ (w.heap x).parent, (w.heap p).needReceipt = true))
  | .error x _ => inferInstanceAs (Decidable ((w.heap x).parent ≠ none → (w.heap x).processed = false))
  | .message x _ => inferInstanceAs (Decidable ((w.heap x).parent ≠ none → (w.heap x).processed = false))
  | .call _ | .process | .enter | .curl _ | .done _
  | .infoEnd | .checkReceipts _ | .checkMain => .isTrue trivial

/-- What the calls of the loop hold is not released. -/
structure World.Held (w : World) : Prop where
  main : ∀ f ∈ w.running, ∀ m ∈ f.main, m ∈ w.requests
  callers : ∀ c ∈ w.callers, c.fetching ∈ w.requests ∧ ∀ m ∈ c.main, m ∈ w.requests
  /-- The answer to a fetch is written to its parent. -/
  parents : ∀ x ∈ w.attached, (w.heap x).processed = false →
    ∀ p ∈ (w.heap x).parent, p ∈ w.requests

namespace World

/-- A released request neither wants a receipt nor waits for an answer. -/
lemma mem_release {r : ReqId} (hr : r ∈ w.requests) (h : (w.heap r).unsettled = true) :
    r ∈ w.release.requests := by
  refine List.mem_filter.mpr ⟨hr, ?_⟩
  unfold Request.unsettled at h
  unfold Request.releasable
  cases hp : (w.heap r).processed <;> cases hn : (w.heap r).needReceipt <;> simp_all

lemma mem_release_of_need {r : ReqId} (hr : r ∈ w.requests) (h : (w.heap r).needReceipt = true) :
    r ∈ w.release.requests :=
  mem_release hr (by simp [Request.unsettled, h])

lemma leave_running_of_some {f f' : Frame} (hf : w.running = some f) (hf' : f' ∈ w.leave.running) :
    ∃ c ∈ w.callers, f'.main = c.main := by
  unfold leave at hf'
  rw [hf] at hf'
  dsimp only at hf'
  split at hf'
  · cases hf'
  · next c cs hc =>
    obtain rfl := Option.some.inj hf'
    exact ⟨c, by simp [hc], rfl⟩

/-- No step uses what is released while the calls hold nothing that is. -/
lemma Held.clean (hw : w.Held) (hc : w.LoopClean) (ha : w.WantedAtExit a) (h : w.step E a = some w') :
    w'.LoopClean := by
  intro u hu
  rcases step_uses h hu with hu | hu
  · exact hc u hu
  · cases hu with
    | errorTransfer => rfl
    | messageTransfer => rfl
    | errorParent hx hp hr => exact absurd (hw.parents _ hx (ha (by simp [hp])) _ hp) hr
    | messageParent hx hp hr => exact absurd (hw.parents _ hx (ha (by simp [hp])) _ hp) hr
    | main hf hm hr => exact absurd (hw.main _ hf _ hm) hr
    | curl _ _ hc hr => exact absurd (hw.callers _ (List.mem_of_mem_head? hc)).1 hr
    | exit _ _ hc hr =>
      have hmem := List.mem_of_mem_head? hc
      obtain ⟨hneed, -⟩ := ha.1 _ hmem
      exact absurd (mem_release_of_need (hw.callers _ hmem).1 hneed) hr

/-! ### What is held -/

/-- Of the heap, only the flag `processed` counts for what is held. -/
lemma Held.mono (hw : w.Held) (hreq : w'.requests = w.requests) (hatt : ∀ x ∈ w'.attached, x ∈ w.attached)
    (hheap : ∀ x ∈ w'.attached, (w'.heap x).parent = (w.heap x).parent ∧
      ((w.heap x).processed = true → (w'.heap x).processed = true))
    (hmain : ∀ f ∈ w'.running, ∀ m ∈ f.main, m ∈ w.requests)
    (hcal : ∀ c ∈ w'.callers, c ∈ w.callers) : w'.Held where
  main f hf m hm := by
    rw [hreq]
    exact hmain f hf m hm
  callers c hc := by
    rw [hreq]
    exact hw.callers c (hcal c hc)
  parents x hx hp p hpx := by
    rw [(hheap x hx).1] at hpx
    have hp' : (w.heap x).processed = false := by
      by_contra hn
      rw [(hheap x hx).2 (by simpa using hn)] at hp
      cases hp
    rw [hreq]
    exact hw.parents x (hatt x hx) hp' p hpx

lemma Held.moved (hw : w.Held) (hheap : w'.heap = w.heap)
    (hloop : w'.loop = { w.loop with running := w'.running, returned := w'.returned })
    (hmain : ∀ f ∈ w'.running, ∀ m ∈ f.main, m ∈ w.requests) : w'.Held := by
  have hatt : w'.attached = w.attached := congrArg Loop.attached hloop
  have hcal : w'.callers = w.callers := congrArg Loop.callers hloop
  apply hw.mono (congrArg Loop.requests hloop)
  · exact fun x hx => by rwa [hatt] at hx
  · exact fun x _ => by simp [hheap]
  · exact hmain
  · exact fun c hc => by rwa [hcal] at hc

lemma Held.goto (hw : w.Held) (pc : Pc) : (w.goto pc).Held := by
  refine hw.moved rfl rfl ?_
  intro f hf m hm
  obtain ⟨f', hf', rfl⟩ := Option.map_eq_some_iff.mp hf
  exact hw.main f' hf' m hm

lemma Held.within (hw : w.Held) {x : ReqId} (h : Within x w w') : w'.Held := by
  have hatt : w'.attached = w.attached := congrArg Loop.attached h.loop
  have hrun : w'.running = w.running := congrArg Loop.running h.loop
  have hcal : w'.callers = w.callers := congrArg Loop.callers h.loop
  apply hw.mono h.requests
  · exact fun y hy => by rwa [hatt] at hy
  · exact fun y _ => ⟨Request.fixed_parent (h.fixed y), h.processed y⟩
  · exact fun f hf => hw.main f (by rwa [hrun] at hf)
  · exact fun c hc => by rwa [hcal] at hc

lemma Held.leave (hw : w.Held) {f : Frame} (hf : w.running = some f) : w.leave.Held := by
  apply hw.mono w.leave_requests
  · exact fun x hx => by rwa [leave_attached] at hx
  · intro x _
    rcases w.leave_heap x with h | ⟨-, h⟩ <;> simp [h]
  · intro f' hf' m hm
    obtain ⟨c, hc, hmain⟩ := leave_running_of_some hf hf'
    rw [hmain] at hm
    exact (hw.callers c hc).2 m hm
  · exact leave_callers

lemma Held.release_leave (hw : w.Held) {f : Frame} (hf : w.running = some f)
    (ha : w.WantedAtExit .exit) : w.release.leave.Held where
  main f' hf' m hm := by
    obtain ⟨c, hc, hmain⟩ := leave_running_of_some (w := w.release) hf hf'
    rw [hmain] at hm
    rw [leave_requests]
    exact mem_release ((hw.callers c hc).2 m hm) ((ha.1 c hc).2 m hm)
  callers c hc := by
    have hc' : c ∈ w.callers := leave_callers (w := w.release) c hc
    obtain ⟨hneed, hmain⟩ := ha.1 c hc'
    rw [leave_requests]
    exact ⟨mem_release_of_need (hw.callers c hc').1 hneed,
      fun m hm => mem_release ((hw.callers c hc').2 m hm) (hmain m hm)⟩
  parents x hx hp p hpx := by
    rw [leave_attached] at hx
    rw [Request.fixed_parent (leave_fixed x)] at hpx
    have hp' : (w.heap x).processed = false := by
      rcases w.release.leave_heap x with h | ⟨-, h⟩ <;> rw [h] at hp <;> exact hp
    rw [leave_requests]
    exact mem_release_of_need (hw.parents x hx hp' p hpx) (ha.2 x hx hp' p hpx)

/-- A new request, that fetches a receipt for one in the list or has no parent. -/
lemma Held.newRequest (ho : w.Ok) (hw : w.Held) {q : Request} :
    (w.newRequest q).Held where
  main f hf m hm := List.mem_append_left _ (hw.main f hf m hm)
  callers c hc := ⟨List.mem_append_left _ (hw.callers c hc).1,
    fun m hm => List.mem_append_left _ ((hw.callers c hc).2 m hm)⟩
  parents x hx hp p hpx := by
    rw [newRequest_heap_ne _ _ (ho.attached_lt x hx).ne] at hp hpx
    exact List.mem_append_left _ (hw.parents x hx hp p hpx)

lemma Held.sent (ho : w.Ok) (hw : w.Held) {q : Request} (hq : ∀ p ∈ q.parent, p ∈ w.requests)
    (accepted : Bool) : ((w.newRequest q).addHandle w.next accepted).Held where
  main f hf m hm := (hw.newRequest ho (q := q)).main f hf m hm
  callers c hc := (hw.newRequest ho (q := q)).callers c hc
  parents x hx hp p hpx := by
    have hx' : x = w.next ∨ x ∈ w.attached := by
      cases accepted with
      | true => exact List.mem_cons.mp hx
      | false => exact .inr hx
    rcases hx' with rfl | hx'
    · have hpx' : p ∈ q.parent := by
        have h : ((w.newRequest q).heap w.next).parent = some p := hpx
        rwa [newRequest_heap_next] at h
      exact List.mem_append_left _ (hq p hpx')
    · exact (hw.newRequest ho (q := q)).parents x hx' hp p hpx

lemma Held.call (ho : w.Ok) (hw : w.Held) (c : Call) : (w.call c).Held := by
  unfold World.call
  split
  · exact hw.moved rfl rfl hw.main
  · have h : (w.newRequest c.request).Held := hw.newRequest ho
    exact h.moved rfl rfl h.main
  · next accepted _ =>
    have hs := hw.sent ho (q := c.request) (fun p hp => nomatch hp) accepted
    dsimp only
    split
    · exact ⟨hs.main, hs.callers, hs.parents⟩
    · split
      · exact hs.moved rfl rfl hs.main
      · refine hs.moved rfl rfl ?_
        intro f hf m hm
        obtain rfl := Option.some.inj hf
        obtain rfl := Option.some.inj hm
        exact List.mem_append_right _ List.mem_cons_self

lemma Held.modify (hw : w.Held) {r : ReqId} {f : Request → Request}
    (hf : ∀ q, (f q).parent = q.parent ∧ (f q).processed = q.processed) : (w.modify r f).Held := by
  refine hw.mono rfl ?_ ?_ ?_ ?_
  · exact fun _ hx => hx
  · intro x _
    by_cases hx : x = r
    · subst hx
      rw [modify_heap_self, (hf _).1, (hf _).2]
      exact ⟨rfl, id⟩
    · rw [modify_heap_ne _ _ _ hx]
      exact ⟨rfl, id⟩
  · exact hw.main
  · exact fun _ hc => hc

lemma Held.touch (hw : w.Held) (kind : UseKind) (r : ReqId) : (w.touch kind r).Held := by
  apply hw.moved (touch_heap ..)
  · rw [touch_loop]
    unfold World.touch
    split <;> rfl
  · have hrun : (w.touch kind r).running = w.running := congrArg Loop.running (touch_loop ..)
    rw [hrun]
    exact hw.main

lemma Held.checkMain (hw : w.Held) : (w.checkMain E).Held := by
  unfold World.checkMain
  split
  · exact hw.goto _
  · next m _ =>
    have hw1 := hw.touch .main m
    dsimp only
    split
    · refine hw1.moved rfl rfl ?_
      intro f hf m hm
      obtain ⟨f', hf', rfl⟩ := Option.map_eq_some_iff.mp hf
      exact hw1.main f' hf' m hm
    · split <;> exact hw1.goto _

lemma Held.checkReceipts (ho : w.Ok) (hw : w.Held) (start : Start) : (w.checkReceipts start).Held := by
  unfold World.checkReceipts
  split
  · exact hw.goto .checkMain
  · next r hr =>
    have hmem := (wantingReceipt_eq_some hr).1
    set w1 := w.modify r fun q => { q with processingReceipt := true }
    have ho1 : w1.Ok := ho.modify (fun _ => rfl) fun _ h => h
    have hw1 : w1.Held := hw.modify fun _ => ⟨rfl, rfl⟩
    dsimp only
    split
    · exact hw1.modify fun _ => ⟨rfl, rfl⟩
    · exact (hw1.newRequest ho1).modify fun _ => ⟨rfl, rfl⟩
    · next _ accepted =>
      have hs := hw1.sent ho1 (q := (w1.heap r).receiptFetch r)
        (fun p hp => Option.some.inj hp ▸ hmem) accepted
      split
      · exact hs
      · refine ⟨fun f hf m hm => ?_, fun c hc => ?_, hs.parents⟩
        · obtain rfl := Option.some.inj hf
          obtain rfl := Option.some.inj hm
          exact List.mem_append_right _ List.mem_cons_self
        · rcases List.mem_cons.mp hc with rfl | hc
          · refine ⟨List.mem_append_left _ hmem, fun m hm => ?_⟩
            obtain ⟨f, hf, hm⟩ := Option.bind_eq_some_iff.mp hm
            exact hs.main f hf m hm
          · exact hs.callers c hc

/-- **No step releases what is held while receipts are wanted.** -/
theorem Held.step (ho : w.Ok) (hw : w.Held) (ha : w.WantedAtExit a) (h : w.step E a = some w') :
    w'.Held := by
  cases a <;> simp only [World.step, Option.ite_none_right_eq_some, Option.some.injEq] at h <;>
    obtain ⟨hpc, rfl⟩ := h
  case call c => exact hw.call ho c
  case process =>
    unfold World.process
    split
    · exact hw
    · refine hw.moved rfl rfl ?_
      intro f hf m hm
      obtain rfl := Option.some.inj hf
      cases hm
  case enter => exact hw.goto _
  case error x text => exact hw.within (Within.processRequestError w x text)
  case message x m => exact hw.within (Within.processMessage E w x m)
  case curl ok =>
    obtain ⟨f, hf, -⟩ := Option.map_eq_some_iff.mp hpc
    split
    · exact hw.goto _
    · exact hw.leave hf
  case done x =>
    exact hw.mono rfl (fun _ hx => List.mem_of_mem_erase hx) (fun _ _ => ⟨rfl, id⟩) hw.main fun _ hc => hc
  case infoEnd => exact hw.goto _
  case checkReceipts start => exact hw.checkReceipts ho start
  case checkMain => exact hw.checkMain
  case exit =>
    obtain ⟨f, hf, -⟩ := Option.map_eq_some_iff.mp hpc
    exact hw.release_leave hf ha

end World

variable {receipts : ℕ → TransactionReceipt} {accounts : ℕ → AccountState}

/-- **No released request is used by the loop** in a run that reaches `loc_exit` only while the receipts
of the waiting calls are still wanted. -/
theorem loopClean_of_wantedAtExit {as : List Act}
    (h : run (World.step E) (.start receipts accounts) as = some w)
    (ha : Every (World.step E) World.WantedAtExit (.start receipts accounts) as) : w.LoopClean := by
  have hstep : ∀ (w : World) (a : Act) (w' : World), w.Ok ∧ w.Held ∧ w.LoopClean →
      w.WantedAtExit a → w.step E a = some w' → w'.Ok ∧ w'.Held ∧ w'.LoopClean := by
    rintro w a w' ⟨ho, hh, hc⟩ ha hs
    exact ⟨ho.step hs, hh.step ho ha hs, hh.clean hc ha hs⟩
  have h0 : (World.start receipts accounts).Held :=
    ⟨fun _ hf => (nomatch hf), fun _ hc => (nomatch hc), fun _ hx => (nomatch hx)⟩
  have hc0 : (World.start receipts accounts).LoopClean := fun _ hu => nomatch hu
  exact (run_invariant hstep ⟨.start receipts accounts, h0, hc0⟩ ha h).2.2

/-- A synchronous transfer is accepted, and the connection is lost before its receipt comes. -/
def acceptedNoReceipt : List Act :=
  [.call syncTransfer, .enter, .message 0 acceptedAnswer, .curl true, .done 0, .infoEnd,
   .checkReceipts (.sent true), .enter, .curl true, .done 1, .infoEnd, .checkReceipts .noRequest,
   .checkMain, .exit, .checkReceipts .noRequest, .checkMain, .exit]

theorem loopClean_acceptedNoReceipt :
    ∃ w, run (World.step sampleEnv) newInstance acceptedNoReceipt = some w ∧ w.LoopClean := by
  have h : ∃ w, run (World.step sampleEnv) newInstance acceptedNoReceipt = some w := ⟨_, rfl⟩
  have ha : Every (World.step sampleEnv) World.WantedAtExit newInstance acceptedNoReceipt := by decide
  obtain ⟨w, h⟩ := h
  exact ⟨w, h, loopClean_of_wantedAtExit h ha⟩

/-- A synchronous transfer is accepted, and its receipt comes. -/
def acceptedWithReceipt : List Act :=
  [.call syncTransfer, .enter, .message 0 acceptedAnswer, .curl true, .done 0, .infoEnd,
   .checkReceipts (.sent true), .enter, .message 1 receiptAnswer, .curl true, .done 1, .infoEnd,
   .checkReceipts .noRequest, .checkMain, .exit, .checkReceipts .noRequest, .checkMain, .exit]

/-- **The transfer is released by the nested call and read by the outer one.** -/
theorem settled_main_request_used :
    ∃ w, run (World.step sampleEnv) newInstance acceptedWithReceipt = some w ∧
      w.uses = [(.main, 0)] ∧ ¬ w.LoopClean :=
  ⟨_, rfl, by decide, by decide⟩

end Libaergo
