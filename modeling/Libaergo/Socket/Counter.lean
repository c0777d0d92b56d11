import Libaergo.Socket.Steps

/-!
# The transfer counter

`new_http_request` counts a transfer whatever `curl_multi_add_handle` returns, and only `CURLMSG_DONE`,
which comes for handles that libcurl has, takes it back.
-/

namespace Libaergo

open Lib

variable {E : Env} {w w' : World} {a : Act}

/-- `instance->transfers` is the number of easy handles in the multi handle. -/
def World.TransfersCounted (w : World) : Prop := w.transfers = w.attached.length

instance (w : World) : Decidable w.TransfersCounted := by
  unfold World.TransfersCounted
  infer_instance

/-- If the act offers an easy handle to libcurl, libcurl takes it. -/
def World.HandleTaken (w : World) : Act → Prop
  | .call c => c.start ≠ .sent false
  | .checkReceipts start => w.wantingReceipt ≠ none → start ≠ .sent false
  | _ => True

instance (w : World) (a : Act) : Decidable (w.HandleTaken a) :=
  match a with
  | .call c => inferInstanceAs (Decidable (c.start ≠ .sent false))
  | .checkReceipts start =>
    inferInstanceAs (Decidable (w.wantingReceipt ≠ none → start ≠ .sent false))
  | .process | .enter | .error _ _ | .message _ _ | .curl _ | .done _ | .infoEnd | .checkMain
  | .exit => .isTrue trivial

namespace World

lemma TransfersCounted.congr (h : w'.loop = w.loop) (hw : w.TransfersCounted) : w'.TransfersCounted := by
  have hatt : w'.attached = w.attached := congrArg Loop.attached h
  have htr : w'.transfers = w.transfers := congrArg Loop.transfers h
  unfold TransfersCounted
  rw [hatt, htr]
  exact hw

lemma TransfersCounted.addHandle (hw : w.TransfersCounted) (q : Request) (r : ReqId) (accepted : Bool) :
    ((w.newRequest q).addHandle r accepted).TransfersCounted ↔ accepted = true := by
  have hcount : w.transfers = w.attached.length := hw
  cases accepted with
  | true =>
    have h : w.transfers + 1 = ((r :: w.attached).length : ℤ) := by
      rw [hcount, List.length_cons]
      omega
    exact iff_of_true h rfl
  | false =>
    have h : w.transfers + 1 ≠ (w.attached.length : ℤ) := by omega
    exact iff_of_false h (by decide)

lemma TransfersCounted.call (hw : w.TransfersCounted) (c : Call) :
    (w.call c).TransfersCounted ↔ c.start ≠ .sent false := by
  have h := w.called c
  generalize w.call c = v at h ⊢
  have hsent : ∀ accepted, c.start = .sent accepted → (c.start ≠ .sent false ↔ accepted = true) := by
    intro accepted hs
    cases accepted <;> simp [hs]
  cases h with
  | noRequest hs => exact iff_of_true hw (by simp [hs])
  | noHandle hs => exact iff_of_true hw (by simp [hs])
  | async accepted hs hc => exact (hw.addHandle c.request w.next accepted).trans (hsent accepted hs).symm
  | inside accepted hs hc hr =>
    exact (hw.addHandle c.request w.next accepted).trans (hsent accepted hs).symm
  | waits accepted hs hc hr =>
    exact (hw.addHandle c.request w.next accepted).trans (hsent accepted hs).symm

lemma TransfersCounted.checkReceipts (hw : w.TransfersCounted) (start : Start) :
    (w.checkReceipts start).TransfersCounted ↔ (w.wantingReceipt ≠ none → start ≠ .sent false) := by
  have h := w.checked start
  generalize w.checkReceipts start = v at h ⊢
  have hsent : ∀ r accepted, w.wantingReceipt = some r → start = .sent accepted →
      ((w.wantingReceipt ≠ none → start ≠ .sent false) ↔ accepted = true) := by
    intro r accepted hr hs
    cases accepted <;> simp [hr, hs]
  cases h with
  | nothing hr => exact iff_of_true hw fun hne => absurd hr hne
  | noRequest r hr hs => exact iff_of_true hw fun _ => by simp [hs]
  | noHandle r hr hs => exact iff_of_true hw fun _ => by simp [hs]
  | async r accepted hr hs hc =>
    have hw1 : (w.markReceipt r).TransfersCounted := hw
    exact (hw1.addHandle _ w.next accepted).trans (hsent r accepted hr hs).symm
  | nested r accepted hr hs hc =>
    have hw1 : (w.markReceipt r).TransfersCounted := hw
    exact (hw1.addHandle _ w.next accepted).trans (hsent r accepted hr hs).symm

lemma TransfersCounted.leave (hw : w.TransfersCounted) : w.leave.TransfersCounted := by
  unfold TransfersCounted
  rw [leave_transfers, leave_attached]
  exact hw

lemma TransfersCounted.checkMain (hw : w.TransfersCounted) : (w.checkMain E).TransfersCounted := by
  have h := w.mainChecked E
  generalize w.checkMain E = v at h ⊢
  have htouch : ∀ m, (w.touch .main m).TransfersCounted := fun m => hw.congr (w.touch_loop m .main)
  cases h with
  | noMain hm => exact hw
  | settled f m hf hm hq => exact htouch m
  | waits f m hf hm hq ht => exact htouch m
  | ends f m hf hm hq ht => exact htouch m

lemma TransfersCounted.done (hw : w.TransfersCounted) {r : ReqId} (hr : r ∈ w.attached) :
    (w.done r).TransfersCounted := by
  have hcount : w.transfers = w.attached.length := hw
  have hpos : 0 < w.attached.length := List.length_pos_of_mem hr
  show w.transfers - 1 = ((w.attached.erase r).length : ℤ)
  rw [List.length_erase_of_mem hr]
  omega

/-- **A step keeps the count exactly if no handle is refused.** -/
theorem TransfersCounted.step_iff (hw : w.TransfersCounted) (h : w.step E a = some w') :
    w'.TransfersCounted ↔ w.HandleTaken a := by
  cases a <;> simp only [World.step, Option.ite_none_right_eq_some, Option.some.injEq] at h <;>
    obtain ⟨hpc, rfl⟩ := h
  case call c => exact hw.call c
  case process =>
    refine iff_of_true ?_ trivial
    unfold World.process
    split <;> exact hw
  case enter => exact iff_of_true hw trivial
  case error r text =>
    exact iff_of_true (hw.congr (Within.processRequestError w r text).loop) trivial
  case message r m => exact iff_of_true (hw.congr (Within.processMessage E w r m).loop) trivial
  case curl ok =>
    refine iff_of_true ?_ trivial
    split
    · exact hw
    · exact hw.leave
  case done r => exact iff_of_true (hw.done hpc.2) trivial
  case infoEnd => exact iff_of_true hw trivial
  case checkReceipts start => exact hw.checkReceipts start
  case checkMain => exact iff_of_true hw.checkMain trivial
  case exit =>
    have hrel : w.release.TransfersCounted := hw
    exact iff_of_true hrel.leave trivial

end World

variable {receipts : ℕ → TransactionReceipt} {accounts : ℕ → AccountState}

/-- **The counter is the number of the attached handles exactly in the runs in which libcurl takes every
handle.** -/
theorem transfersCounted_iff {as : List Act}
    (h : run (World.step E) (.start receipts accounts) as = some w) :
    Always (World.step E) World.TransfersCounted (.start receipts accounts) as ↔
      Every (World.step E) World.HandleTaken (.start receipts accounts) as :=
  always_iff_every (fun _ _ _ hw h => hw.step_iff h) rfl h

def queryInCallback (accepted : Bool) : List Act :=
  [.call asyncQuery, .process, .enter, .message 0 queryAnswer,
   .call { asyncQuery with start := .sent accepted }]

theorem transfersCounted_queryInCallback :
    Always (World.step sampleEnv) World.TransfersCounted newInstance (queryInCallback true) :=
  (transfersCounted_iff rfl).mpr (by decide)

/-- **A handle that libcurl refuses is counted**: after a query from a callback the counter says two, and
one handle is attached. -/
theorem refused_handle_counted :
    ∃ w, run (World.step sampleEnv) newInstance (queryInCallback false) = some w ∧
      ¬ w.TransfersCounted ∧ w.transfers = 2 ∧ w.attached = [0] :=
  ⟨_, rfl, by decide, rfl, rfl⟩

end Libaergo
