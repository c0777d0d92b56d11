import Libaergo.Socket.Steps

/-!
# The requests of the transfers

A transfer that is attached to the multi handle writes to a request.  The request is released by
`loc_exit` as soon as it is processed and wants no receipt, the transfer goes with `CURLMSG_DONE`: nothing
in the code ties the one to the other.

What is written to a released request may be written to another one, to which `malloc` has given its address.
`World.SparesReleased` says of an act that it writes to none, and is asked for where that would matter.
-/

namespace Libaergo

open Lib

variable {E : Env} {w w' : World} {a : Act}

/-- Every attached transfer writes to a request that is not released. -/
def World.TransfersLive (w : World) : Prop := ∀ r ∈ w.attached, r ∈ w.requests

instance (w : World) : Decidable w.TransfersLive := by
  unfold World.TransfersLive
  infer_instance

/-- `loc_exit` is reached only when the `CURLMSG_DONE` of every request that is processed, needs no
receipt and is no stream has been read. -/
def World.DoneBeforeExit (w : World) : Act → Prop
  | .exit => ∀ r ∈ w.attached, (w.heap r).releasable = false
  | _ => True

instance (w : World) (a : Act) : Decidable (w.DoneBeforeExit a) :=
  match a with
  | .exit => inferInstanceAs (Decidable (∀ r ∈ w.attached, (w.heap r).releasable = false))
  | .call _ | .process | .enter | .error _ _ | .message _ _ | .curl _
  | .done _ | .infoEnd | .checkReceipts _ | .checkMain => .isTrue trivial

namespace World

lemma TransfersLive.congr (h : w'.loop = w.loop) (hw : w.TransfersLive) : w'.TransfersLive := by
  intro r hr
  have h1 : w'.attached = w.attached := congrArg Loop.attached h
  have h2 : w'.requests = w.requests := congrArg Loop.requests h
  rw [h2]
  exact hw r (h1 ▸ hr)

lemma TransfersLive.addHandle (hw : w.TransfersLive) (q : Request) (accepted : Bool) :
    ((w.newRequest q).addHandle w.next accepted).TransfersLive := by
  intro r hr
  have hr' : r = w.next ∨ r ∈ w.attached := by
    cases accepted with
    | true => exact List.mem_cons.mp hr
    | false => exact .inr hr
  apply List.mem_append.mpr
  rcases hr' with rfl | hr'
  · exact .inr List.mem_cons_self
  · exact .inl (hw r hr')

lemma TransfersLive.newRequest (hw : w.TransfersLive) (q : Request) :
    (w.newRequest q).TransfersLive :=
  fun r hr => List.mem_append_left _ (hw r hr)

lemma TransfersLive.call (hw : w.TransfersLive) (c : Call) : (w.call c).TransfersLive := by
  have h := w.called c
  generalize w.call c = v at h ⊢
  cases h with
  | noRequest => exact hw
  | noHandle => exact hw.newRequest c.request
  | async accepted => exact hw.addHandle c.request accepted
  | inside accepted => exact hw.addHandle c.request accepted
  | waits accepted => exact hw.addHandle c.request accepted

lemma TransfersLive.leave (hw : w.TransfersLive) : w.leave.TransfersLive := by
  intro r hr
  rw [leave_attached] at hr
  rw [leave_requests]
  exact hw r hr

lemma TransfersLive.checkReceipts (hw : w.TransfersLive) (start : Start) :
    (w.checkReceipts start).TransfersLive := by
  have hmark : ∀ r, (w.markReceipt r).TransfersLive := fun _ => hw
  have h := w.checked start
  generalize w.checkReceipts start = v at h ⊢
  cases h with
  | nothing => exact hw
  | noRequest r => exact hmark r
  | noHandle r => exact fun x hx => List.mem_append_left _ (hmark r x hx)
  | async r accepted => exact (hmark r).addHandle _ accepted
  | nested r accepted => exact (hmark r).addHandle _ accepted

lemma TransfersLive.checkMain (hw : w.TransfersLive) : (w.checkMain E).TransfersLive := by
  have htouch : ∀ m, (w.touch .main m).TransfersLive := fun _ => hw.congr (touch_loop ..)
  have h := w.mainChecked E
  generalize w.checkMain E = v at h ⊢
  cases h with
  | noMain => exact hw
  | settled f m => exact htouch m
  | waits f m => exact htouch m
  | ends f m => exact htouch m

/-- **A step keeps the transfers' requests exactly if it does not release one of them.** -/
theorem TransfersLive.step_iff (hw : w.TransfersLive) (h : w.step E a = some w') :
    w'.TransfersLive ↔ w.DoneBeforeExit a := by
  cases a <;> simp only [World.step, Option.ite_none_right_eq_some, Option.some.injEq] at h <;>
    obtain ⟨-, rfl⟩ := h
  case exit =>
    constructor
    · intro h r hr
      have hmem := h r (by rwa [leave_attached])
      rw [leave_requests] at hmem
      simpa using (List.mem_filter.mp hmem).2
    · intro h r hr
      rw [leave_attached] at hr
      rw [leave_requests]
      refine List.mem_filter.mpr ⟨hw r hr, ?_⟩
      simpa using h r hr
  case call c => exact iff_of_true (hw.call c) trivial
  case process =>
    refine iff_of_true ?_ trivial
    unfold World.process
    split <;> exact hw
  case enter => exact iff_of_true hw trivial
  case error r text =>
    exact iff_of_true (hw.congr (Within.processRequestError w r text).loop) trivial
  case message r m => exact iff_of_true (hw.congr (Within.processMessage E w r m).loop) trivial
  case curl ok =>
    refine iff_of_true ?_ trivial
    split
    · exact hw
    · exact hw.leave
  case done r => exact iff_of_true (fun x hx => hw x (List.mem_of_mem_erase hx)) trivial
  case infoEnd => exact iff_of_true hw trivial
  case checkReceipts start => exact iff_of_true (hw.checkReceipts start) trivial
  case checkMain => exact iff_of_true hw.checkMain trivial

end World

variable {receipts : ℕ → TransactionReceipt} {accounts : ℕ → AccountState}

/-- **No transfer outlives its request exactly in the runs that read `CURLMSG_DONE` first.** -/
theorem transfersLive_iff {as : List Act} (h : run (World.step E) (.start receipts accounts) as = some w) :
    Always (World.step E) World.TransfersLive (.start receipts accounts) as ↔
      Every (World.step E) World.DoneBeforeExit (.start receipts accounts) as :=
  always_iff_every (fun _ _ _ hw h => hw.step_iff h) (fun _ hr => nomatch hr) h

/-- In these runs libcurl never writes to a released request. -/
theorem no_transfer_use {as : List Act} (h : run (World.step E) (.start receipts accounts) as = some w)
    (hdone : Every (World.step E) World.DoneBeforeExit (.start receipts accounts) as) (r : ReqId) :
    (.transfer, r) ∉ w.uses := by
  have hstep : ∀ (w : World) (a : Act) (w' : World), w.TransfersLive ∧ (.transfer, r) ∉ w.uses →
      w.DoneBeforeExit a → w.step E a = some w' → w'.TransfersLive ∧ (.transfer, r) ∉ w'.uses := by
    intro w a w' hw ha hs
    refine ⟨(hw.1.step_iff hs).mpr ha, fun hu => ?_⟩
    rcases World.step_uses hs hu with hu | hu
    · exact hw.2 hu
    · cases hu with
      | errorTransfer hx hr => exact hr (hw.1 r hx)
      | messageTransfer hx hr => exact hr (hw.1 r hx)
  have h0 : (World.start receipts accounts).TransfersLive ∧
      (.transfer, r) ∉ (World.start receipts accounts).uses :=
    ⟨fun _ hr => absurd hr List.not_mem_nil, List.not_mem_nil⟩
  exact (run_invariant hstep h0 hdone h).2

/-! ### Released requests -/

/-- A call of the loop that ends without success finds the request whose receipt it was to fetch. -/
def World.FetchListed (w : World) : Prop :=
  ∀ f ∈ w.running, f.success = false → ∀ c ∈ w.callers.head?, c.fetching ∈ w.requests

instance (w : World) : Decidable w.FetchListed := by
  unfold World.FetchListed
  infer_instance

/-- No released request is written to: through a transfer, as each is done before its request is released; as the
parent of a request that is answered; or as the loop variable of `loc_check_receipts`.  A released `main_request` may
be read. -/
def World.SparesReleased (w : World) : Act → Prop
  | .error x _ => ∀ p ∈ (w.heap x).parent, p ∈ w.requests
  | .message x _ => ∀ p ∈ (w.heap x).parent, p ∈ w.requests
  | .curl ok => ok = false → w.FetchListed
  | .exit => w.DoneBeforeExit .exit ∧ w.release.FetchListed
  | _ => True

instance (w : World) (a : Act) : Decidable (w.SparesReleased a) :=
  match a with
  | .error x _ => inferInstanceAs (Decidable (∀ p ∈ (w.heap x).parent, p ∈ w.requests))
  | .message x _ => inferInstanceAs (Decidable (∀ p ∈ (w.heap x).parent, p ∈ w.requests))
  | .curl ok => inferInstanceAs (Decidable (ok = false → w.FetchListed))
  | .exit => inferInstanceAs (Decidable (w.DoneBeforeExit .exit ∧ w.release.FetchListed))
  | .call _ | .process | .enter | .done _ | .infoEnd | .checkReceipts _ | .checkMain => .isTrue trivial

lemma World.SparesReleased.doneBeforeExit (h : w.SparesReleased a) : w.DoneBeforeExit a := by
  cases a with
  | exit => exact h.1
  | _ => trivial

/-- Every transfer has its request, and of the released requests only main requests were used. -/
structure World.Spared (w : World) : Prop where
  live : w.TransfersLive
  uses : ∀ u ∈ w.uses, u.1 = .main

lemma World.Spared.step (hw : w.Spared) (ha : w.SparesReleased a) (h : w.step E a = some w') : w'.Spared := by
  refine ⟨(hw.live.step_iff h).mpr ha.doneBeforeExit, fun u hu => ?_⟩
  rcases World.step_uses h hu with hu | hu
  · exact hw.uses u hu
  · cases hu with
    | main => rfl
    | errorTransfer hx hr => exact absurd (hw.live _ hx) hr
    | messageTransfer hx hr => exact absurd (hw.live _ hx) hr
    | errorParent _ hp hr => exact absurd (ha _ hp) hr
    | messageParent _ hp hr => exact absurd (ha _ hp) hr
    | curl hf hs hc hr => exact absurd (ha rfl _ hf hs _ hc) hr
    | exit hf hs hc hr => exact absurd (ha.2 _ hf hs _ hc) hr

lemma World.Spared.start (receipts : ℕ → TransactionReceipt) (accounts : ℕ → AccountState) :
    (World.start receipts accounts).Spared :=
  ⟨fun _ hr => (nomatch hr), fun _ hu => (nomatch hu)⟩

/-- **Where the released requests are spared**, every transfer has its request in all states of the run, and no
released request is written to. -/
theorem spared_of_sparesReleased {as : List Act}
    (h : run (World.step E) (.start receipts accounts) as = some w)
    (ha : Every (World.step E) World.SparesReleased (.start receipts accounts) as) : w.Spared :=
  run_invariant (fun _ _ _ hw ha h => hw.step ha h) (.start receipts accounts) ha h

/-- A query, answered: `CURLMSG_DONE` is read in the pass of the answer. -/
def answeredAndDone : List Act :=
  [.call asyncQuery, .process, .enter, .message 0 queryAnswer, .curl true, .done 0, .infoEnd,
   .checkReceipts .noRequest, .checkMain, .exit]

theorem transfersLive_answeredAndDone :
    Always (World.step sampleEnv) World.TransfersLive newInstance answeredAndDone :=
  (transfersLive_iff rfl).mpr (by decide)

/-- The same query: `CURLMSG_DONE` is not there yet when the loop goes on. -/
def answeredNotDone : List Act :=
  [.call asyncQuery, .process, .enter, .message 0 queryAnswer, .curl true, .infoEnd,
   .checkReceipts .noRequest, .checkMain, .exit]

/-- **The request of a transfer without `CURLMSG_DONE` is released**, and a `grpc-message` in the trailers
is written to it. -/
theorem answered_request_released_first :
    (∃ w, run (World.step sampleEnv) newInstance answeredNotDone = some w ∧ ¬ w.TransfersLive) ∧
      ∃ w, run (World.step sampleEnv) newInstance
          (answeredNotDone ++ [.call asyncQuery, .process, .enter, .error 0 [0x78]]) = some w ∧
        (.transfer, 0) ∈ w.uses := by
  refine ⟨⟨_, rfl, by decide⟩, ⟨_, rfl, ?_⟩⟩
  decide

end Libaergo
