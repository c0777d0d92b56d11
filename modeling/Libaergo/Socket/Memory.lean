import Libaergo.Socket.Retry
import Libaergo.Socket.Soundness

/-!
# The memory of the caller

The request of a synchronous call keeps a pointer to the caller's receipt, result buffer or account, and the
fetch of a receipt keeps it too.  A call that waits until its requests are answered releases them at
`loc_exit`; a request that is never answered, and any request where the function is left through
`loc_failed`, stays in the list after the call has returned.  A request that is released before its
`CURLMSG_DONE` is out of the list, but its transfer still writes to it.
-/

namespace Libaergo

open Lib

variable {E : Env} {w w' t v : World} {a : Act} {c : Call} {as bs : List Act} {r x : ReqId}

/-! ### What a call has to see through -/

/-- The act leaves no request of the call `r` without an answer: the call is not made inside a callback,
libcurl takes its transfers, they are answered before they end, and libcurl fails under no request that
waits for its answer.  No message comes for a transaction whose receipt is asked for. -/
def World.Finishes (w : World) (r : ReqId) : Act → Prop
  | .call c => w.next = r → c.start = .noRequest ∨ c.start = .sent true ∧ w.pc = none
  | .message x _ => x = r → (w.heap r).needReceipt = false ∧ (w.heap r).processingReceipt = false
  | .curl ok => ok = true ∨ w.callers ≠ [] ∧
      ∀ x ∈ w.running.bind Frame.main, w.callOf x = r → (w.heap x).processed = true
  | .done x => w.callOf x = r → (w.heap x).processed = true
  | .checkReceipts start => w.wantingReceipt = some r → start = .noRequest ∨ start = .sent true
  | _ => True

instance (w : World) (r : ReqId) (a : Act) : Decidable (w.Finishes r a) :=
  match a with
  | .call c =>
    inferInstanceAs (Decidable (w.next = r → c.start = .noRequest ∨ c.start = .sent true ∧ w.pc = none))
  | .message x _ =>
    inferInstanceAs (Decidable (x = r → (w.heap r).needReceipt = false ∧
      (w.heap r).processingReceipt = false))
  | .curl ok =>
    inferInstanceAs (Decidable (ok = true ∨ w.callers ≠ [] ∧
      ∀ x ∈ w.running.bind Frame.main, w.callOf x = r → (w.heap x).processed = true))
  | .done x => inferInstanceAs (Decidable (w.callOf x = r → (w.heap x).processed = true))
  | .checkReceipts start =>
    inferInstanceAs (Decidable (w.wantingReceipt = some r → start = .noRequest ∨ start = .sent true))
  | .process | .enter | .error _ _ | .infoEnd | .checkMain | .exit => .isTrue trivial

namespace World

/-- No request of the call `r` that is in the list, or that libcurl may still write to, has memory of the
caller. -/
def Forgets (w : World) (r : ReqId) : Prop :=
  ∀ x, w.Listed x → w.callOf x = r → (w.heap x).returnPtr = none ∧ (w.heap x).account = none

/-- What the next act writes to receipts and accounts, it writes for the request of another call, which was
handed them. -/
def WritesForOthers (E : Env) (w : World) (r : ReqId) : Prop :=
  ∀ a w', w.step E a = some w' →
    (∀ p, w'.receipts p ≠ w.receipts p → ∃ x ∈ w.attached, w.callOf x ≠ r ∧ (w.heap x).returnPtr = some p) ∧
      ∀ p, w'.accounts p ≠ w.accounts p → ∃ x ∈ w.attached, w.callOf x ≠ r ∧ (w.heap x).account = some p

lemma Forgets.writesForOthers (hw : w.Forgets r) : w.WritesForOthers E r := by
  intro a w' h
  constructor
  · intro p hne
    by_contra hn
    refine hne (step_receipts h fun x m hx hptr => hn ?_)
    subst hx
    have hatt := (step_message h).2.1
    refine ⟨x, hatt, fun hcall => ?_, hptr⟩
    cases (hw x (.inr hatt) hcall).1.symm.trans hptr
  · intro p hne
    by_contra hn
    refine hne (step_accounts h fun x m hx hptr => hn ?_)
    subst hx
    have hatt := (step_message h).2.1
    refine ⟨x, hatt, fun hcall => ?_, hptr⟩
    cases (hw x (.inr hatt) hcall).2.symm.trans hptr

/-! ### The calls that wait -/

/-- A call of `aergo_process_requests__internal` waits for the request. -/
def Awaits (w : World) (x : ReqId) : Prop :=
  w.running.bind Frame.main = some x ∨ ∃ c ∈ w.callers, c.main = some x

lemma Awaits.congr (hmain : w'.running.bind Frame.main = w.running.bind Frame.main)
    (hcal : w'.callers = w.callers) (hx : w.Awaits x) : w'.Awaits x := by
  unfold Awaits
  rw [hmain, hcal]
  exact hx

lemma goto_main (pc : Pc) : (w.goto pc).running.bind Frame.main = w.running.bind Frame.main := by
  unfold goto
  cases w.running <;> rfl

lemma leave_resumes {f : Frame} {d : Caller} {ds : List Caller} (hf : w.running = some f)
    (hcal : w.callers = d :: ds) :
    w.leave.running = some ⟨d.main, false, .checkReceipts⟩ ∧ w.leave.callers = ds := by
  unfold leave
  rw [hf]
  dsimp only
  rw [hcal]
  exact ⟨rfl, rfl⟩

/-- Who waits for a request waits for it after a return, unless it returned itself. -/
lemma Awaits.leave {f : Frame} (hf : w.running = some f) (hcal : w.callers ≠ []) (hx : w.Awaits x)
    (hne : f.main ≠ some x) : w.leave.Awaits x := by
  obtain ⟨d, ds, hcal⟩ := List.exists_cons_of_ne_nil hcal
  obtain ⟨hrun, hcal'⟩ := leave_resumes hf hcal
  have hx' : ∃ d' ∈ d :: ds, d'.main = some x := by
    rcases hx with hx | hx
    · rw [hf] at hx
      exact absurd hx hne
    · rwa [hcal] at hx
  obtain ⟨d', hd', hmain⟩ := hx'
  rcases List.mem_cons.mp hd' with rfl | hd'
  · left
    rw [hrun]
    exact hmain
  · right
    rw [hcal']
    exact ⟨d', hd', hmain⟩

/-- **The calls that wait go on waiting** until they are left. -/
theorem Awaits.step {f : Frame} (hf : w.running = some f) (hfail : a ≠ .curl false) (hexit : a ≠ .exit)
    (h : w.step E a = some w') (hx : w.Awaits x) : w'.Awaits x := by
  have hpc : w.pc = some f.pc := by simp [World.pc, hf]
  cases a <;> simp only [World.step, Option.ite_none_right_eq_some, Option.some.injEq] at h <;>
    obtain ⟨hat, rfl⟩ := h
  case call c =>
    have h := w.called c
    generalize w.call c = v at h ⊢
    cases h with
    | noRequest => exact hx
    | noHandle => exact hx
    | async => exact hx
    | inside => exact hx
    | waits accepted hs hc hn => cases hn.symm.trans hf
  case process => cases hat.symm.trans hpc
  case enter => exact hx.congr (goto_main _) rfl
  case error y text =>
    have h := (Within.processRequestError w y text).loop
    exact hx.congr (congrArg (Loop.running · |>.bind Frame.main) h) (congrArg Loop.callers h)
  case message y m =>
    have h := (Within.processMessage E w y m).loop
    exact hx.congr (congrArg (Loop.running · |>.bind Frame.main) h) (congrArg Loop.callers h)
  case curl ok =>
    cases ok with
    | true => exact hx.congr (goto_main _) rfl
    | false => exact absurd rfl hfail
  case done y => exact hx
  case infoEnd => exact hx.congr (goto_main _) rfl
  case checkReceipts start =>
    have h := w.checked start
    generalize w.checkReceipts start = v at h ⊢
    cases h with
    | nothing => exact hx.congr (goto_main _) rfl
    | noRequest => exact hx
    | noHandle => exact hx
    | async => exact hx
    | nested p accepted =>
      rcases hx with hx | ⟨d, hd, hmain⟩
      · exact .inr ⟨_, List.mem_cons_self, hx⟩
      · exact .inr ⟨d, List.mem_cons_of_mem _ hd, hmain⟩
  case checkMain =>
    have h := w.mainChecked E
    have hcal := congrArg Loop.callers (checkMain_loop (E := E) (w := w))
    generalize w.checkMain E = v at h hcal ⊢
    cases h with
    | noMain => exact hx.congr (goto_main _) rfl
    | settled g m hg hm => exact hx.congr (by rw [hg]; rfl) hcal
    | waits g m hg hm => exact hx.congr (by rw [hg]; rfl) hcal
    | ends g m hg hm => exact hx.congr (by rw [hg]; rfl) hcal
  case exit => exact absurd rfl hexit

/-! ### While a call waits -/

/-- A request of the call `r` that is not answered has its transfer, and is waited for. -/
def Expects (w : World) (r : ReqId) : Prop :=
  ∀ x ∈ w.requests, w.callOf x = r → (w.heap x).processed = false → x ∈ w.attached ∧ w.Awaits x

/-- A transaction that needs its receipt is found by `loc_check_receipts`, or a fetch is to be answered. -/
def Wants (w : World) (r : ReqId) : Prop :=
  r ∈ w.requests → (w.heap r).needReceipt = true →
    (w.heap r).processed = true ∧ (w.heap r).success = true ∧
      ((w.heap r).processingReceipt = false ∨
        ∃ x ∈ w.requests, (w.heap x).parent = some r ∧ (w.heap x).processed = false)

/-- At `loc_exit` the main request is answered, if it is one of the call `r`. -/
def Answered (w : World) (r : ReqId) : Prop :=
  ∀ f, w.running = some f → f.pc = .exit → ∀ x, f.main = some x → x ∈ w.requests → w.callOf x = r →
    (w.heap x).processed = true

structure Sync (w : World) (r : ReqId) : Prop where
  made : r < w.next
  parent : (w.heap r).parent = none
  callback : (w.heap r).callback = none
  keepActive : (w.heap r).keepActive = false

lemma Sync.step (hw : w.Sync r) (h : w.step E a = some w') : w'.Sync r := by
  have hfixed := step_fixed h hw.made
  refine ⟨hw.made.trans_le (step_next h).1, ?_, ?_, ?_⟩
  · exact (Request.fixed_parent hfixed).trans hw.parent
  · exact (Request.fixed_callback hfixed).trans hw.callback
  · exact (Request.fixed_keepActive hfixed).trans hw.keepActive

/-- What holds while the program waits for the call `r`. -/
structure Pending (r : ReqId) (w : World) : Prop where
  ok : w.Ok
  live : w.TransfersLive
  checked : w.ReceiptsChecked
  sync : w.Sync r
  running : w.running.isSome = true
  outermost : w.Outermost r
  expects : w.Expects r
  wants : w.Wants r
  answered : w.Answered r

/-- What holds after the call has returned: none of its requests is in the list, and no transfer writes to
one. -/
structure Forgotten (r : ReqId) (w : World) : Prop where
  ok : w.Ok
  sync : w.Sync r
  gone : ∀ x, w.Listed x → w.callOf x ≠ r

/-! ### Steps that are not about the call -/

/-- A request of the call that is listed, with what it was before. -/
lemma undisturbed_listed (ho : w.Ok) (hs : w.Sync r) (hu : Undisturbed r w w')
    (hreq : ∀ y, y ∈ w'.requests → y ∈ w.requests ∨ y = w.next) (hx : x ∈ w'.requests)
    (hcall : w'.callOf x = r) : x ∈ w.requests ∧ w.callOf x = r ∧ w'.heap x = w.heap x := by
  have hp' : (w'.heap r).parent = none := by
    rw [hu.self]
    exact hs.parent
  rcases (callOf_eq hp').mp hcall with rfl | hchild
  · refine ⟨(hreq x hx).resolve_right hs.made.ne, (callOf_eq hs.parent).mpr (.inl rfl), hu.self⟩
  · have hchild' := hu.new x hchild
    refine ⟨(hreq x hx).resolve_right (ho.child_lt hchild').ne, ?_, hu.old x hchild'⟩
    exact (callOf_eq hs.parent).mpr (.inr hchild')

lemma Expects.undisturbed (hw : w.Expects r) (ho : w.Ok) (hs : w.Sync r) (hu : Undisturbed r w w')
    (hreq : ∀ y, y ∈ w'.requests → y ∈ w.requests ∨ y = w.next)
    (hawaits : ∀ y, w.Awaits y → w'.Awaits y) : w'.Expects r := by
  intro x hx hcall hp
  obtain ⟨hx, hcall, hheap⟩ := undisturbed_listed ho hs hu hreq hx hcall
  rw [hheap] at hp
  obtain ⟨hatt, hwait⟩ := hw x hx hcall hp
  exact ⟨hu.attached x ((callOf_eq hs.parent).mp hcall) hp hatt, hawaits x hwait⟩

lemma Wants.undisturbed (hw : w.Wants r) (hs : w.Sync r) (hu : Undisturbed r w w')
    (hreq : ∀ y, y ∈ w'.requests → y ∈ w.requests ∨ y = w.next) : w'.Wants r := by
  intro hr hn
  rw [hu.self] at hn ⊢
  obtain ⟨hp, hsucc, hfetch⟩ := hw ((hreq r hr).resolve_right hs.made.ne) hn
  refine ⟨hp, hsucc, hfetch.imp_right ?_⟩
  rintro ⟨x, hx, hchild, hun⟩
  refine ⟨x, hu.requests x (.inr hchild) (Request.not_releasable_of_unanswered hun) hx, ?_, ?_⟩
  all_goals rw [hu.old x hchild]
  · exact hchild
  · exact hun

lemma answered_step {f : Frame} (hf : w.running = some f) (ha : a ≠ .checkMain) (h : w.step E a = some w') :
    w'.Answered r := by
  intro g hg hpc
  exfalso
  cases step_moves hf h with
  | goes f' hrun _ _ _ _ hpc' =>
    obtain rfl := Option.some.inj (hrun.symm.trans hg)
    exact hpc' hpc
  | settles => exact ha rfl
  | ends => exact ha rfl
  | fetches c p hrun =>
    obtain rfl := Option.some.inj (hrun.symm.trans hg)
    cases hpc
  | resumes c cs _ hrun =>
    obtain rfl := Option.some.inj (hrun.symm.trans hg)
    cases hpc
  | returns _ _ hrun => cases hrun.symm.trans hg

lemma Forgotten.step (hw : w.Forgotten r) (h : w.step E a = some w') : w'.Forgotten r := by
  have ho := hw.ok
  refine ⟨ho.step h, hw.sync.step h, fun x hx hcall => ?_⟩
  rcases step_listed h hx with hx' | ⟨rfl, -⟩
  · have hold : w'.callOf x = w.callOf x := by
      unfold callOf
      rw [Request.fixed_parent (step_fixed h (ho.listed_lt hx'))]
    rw [hold] at hcall
    exact hw.gone x hx' hcall
  · rcases (callOf_eq (hw.sync.step h).parent).mp hcall with heq | hchild
    · exact hw.sync.made.ne heq.symm
    · rcases step_children ho hw.sync.made hw.sync.parent h hchild with hchild | hwant
      · exact (ho.child_lt hchild).false
      · have hr := (wantingReceipt_eq_some hwant).1
        exact hw.gone r (.inl hr) ((callOf_eq hw.sync.parent).mpr (.inl rfl))

/-! ### Answers to the call -/

lemma Expects.within (hw : w.Expects r) (h : Within x w w') : w'.Expects r := by
  intro y hy hcall hp
  rw [h.requests] at hy
  rw [h.callOf] at hcall
  have hp' : (w.heap y).processed = false := by
    by_contra hn
    rw [h.processed y (by simpa using hn)] at hp
    cases hp
  obtain ⟨hatt, hwait⟩ := hw y hy hcall hp'
  refine ⟨?_, hwait.congr (congrArg (Loop.running · |>.bind Frame.main) h.loop) (congrArg Loop.callers h.loop)⟩
  rwa [show w'.attached = w.attached from congrArg Loop.attached h.loop]

lemma Wants.of_settled (hn : (w.heap r).needReceipt = false) : w.Wants r :=
  fun _ hn' => by cases hn.symm.trans hn'

lemma Wants.message {m : Bytes} (ho : w.Ok) (hs : w.Sync r) (hx : w.callOf x = r)
    (ha : w.Finishes r (.message x m)) : (processMessage E w x m).Wants r := by
  rcases (callOf_eq hs.parent).mp hx with rfl | hchild
  · obtain ⟨hn, hm⟩ := ha rfl
    by_cases ht : (w.heap x).processResponse.IsTransaction
    · obtain ⟨accepted, hheap⟩ := processMessage_transaction (E := E) (m := m) ht
      intro _ hneed
      rw [hheap] at hneed ⊢
      have hacc : accepted = true := by simpa [hn] using hneed
      exact ⟨rfl, hacc, .inl hm⟩
    · apply Wants.of_settled
      by_contra hneed
      rcases (Within.processMessage E w x m).need x (by simpa using hneed) with hneed | ⟨-, ht'⟩
      · cases hn.symm.trans hneed
      · exact ht ht'
  · have hrx : r ≠ x := by
      rintro rfl
      cases hs.parent.symm.trans hchild
    apply Wants.of_settled
    rw [processMessage_settles (ho.child_fields hchild).1 hchild hrx]

lemma Wants.error {text : Bytes} (ho : w.Ok) (hs : w.Sync r) (hw : w.Wants r) (hx : w.callOf x = r) :
    (processRequestError w x text).Wants r := by
  have hwithin := Within.processRequestError w x text
  rcases (callOf_eq hs.parent).mp hx with rfl | hchild
  · intro hr hneed
    rw [hwithin.requests] at hr
    -- the flag is set of transactions only, which have no error handler
    have ht : (w.heap x).processResponse.IsTransaction := by
      rw [← Request.fixed_processResponse (hwithin.fixed x)]
      exact (ho.within hwithin).need x hneed
    have hnone : (w.heap x).processError = none := by
      by_contra he
      exact ho.errors x he ht
    have hheap := congrArg (World.heap · x) (processRequestError_of_none text hnone)
    rw [failing_heap_self] at hheap
    rw [hheap] at hneed ⊢
    obtain ⟨-, hsucc, hfetch⟩ := hw hr hneed
    refine ⟨rfl, hsucc, hfetch.imp_right ?_⟩
    rintro ⟨y, hy, hchild, hun⟩
    have hyx : y ≠ x := by
      rintro rfl
      cases hs.parent.symm.trans hchild
    have hframe := hwithin.frame y hyx (by rw [hs.parent]; simp)
    refine ⟨y, by rwa [hwithin.requests], ?_, ?_⟩ <;> rw [hframe]
    · exact hchild
    · exact hun
  · have hrx : r ≠ x := by
      rintro rfl
      cases hs.parent.symm.trans hchild
    obtain ⟨-, hh, -⟩ := ho.child_fields hchild
    by_cases htx : txNotFound (((w.heap x).errorMsg.or (some text)).getD []) = true ∧
        (w.heap r).receiptAttempts + 1 < 10
    · obtain ⟨-, hheap⟩ := processRequestError_retry hh hchild hrx htx.1 htx.2
      intro hr hneed
      rw [hwithin.requests] at hr
      rw [hheap] at hneed ⊢
      obtain ⟨hp, hsucc, -⟩ := hw hr hneed
      exact ⟨hp, hsucc, .inl rfl⟩
    · exact .of_settled (processRequestError_giveUp hh hchild hrx htx).1

/-! ### The fetch of the receipt -/

lemma Pending.checkReceipts (hw : w.Pending r) (hwant : w.wantingReceipt = some r) {start : Start}
    (ha : start = .noRequest ∨ start = .sent true) :
    (w.checkReceipts start).Expects r ∧ (w.checkReceipts start).Wants r := by
  have hlt := hw.sync.made
  have hneed := (wantsReceipt_iff.mp (wantingReceipt_eq_some hwant).2).2.2.1
  have hmark : ∀ y, ((w.markReceipt r).heap y).parent = (w.heap y).parent :=
    fun y => Request.fixed_parent (modify_fixed (f := fun q => { q with processingReceipt := true })
      (fun _ => rfl) y)
  have h := w.checked start
  generalize w.checkReceipts start = v at h ⊢
  cases h with
  | nothing hn => cases hn.symm.trans hwant
  | noRequest p hp hs =>
    obtain rfl := Option.some.inj (hwant.symm.trans hp)
    refine ⟨fun x hx hcall hun => ?_, .of_settled (by rw [giveUpReceipt_heap_self])⟩
    rw [giveUpReceipt_processed, markReceipt_processed] at hun
    refine hw.expects x hx ?_ hun
    have hparent : (((w.markReceipt r).giveUpReceipt r).heap x).parent = (w.heap x).parent :=
      (Request.fixed_parent (modify_fixed (f := fun q => { q with needReceipt := false }) (fun _ => rfl) x)).trans
        (hmark x)
    unfold callOf at hcall ⊢
    rwa [hparent] at hcall
  | noHandle p hp hs => rcases ha with ha | ha <;> rw [hs] at ha <;> cases ha
  | async p accepted hp hs hc =>
    obtain rfl := Option.some.inj (hwant.symm.trans hp)
    rw [hw.sync.callback] at hc
    cases hc
  | nested p accepted hp hs hc =>
    obtain rfl := Option.some.inj (hwant.symm.trans hp)
    obtain rfl : accepted = true := by
      rcases ha with ha | ha <;> rw [hs] at ha <;> cases ha
      rfl
    have hnext : (w.makeFetch r).heap w.next =
        (({ w.heap r with processingReceipt := true }) : Request).receiptFetch r := makeFetch_heap_next ..
    have hold : ∀ y, y ≠ w.next → ((w.makeFetch r).heap y).parent = (w.heap y).parent ∧
        ((w.makeFetch r).heap y).processed = (w.heap y).processed := by
      intro y hy
      rw [makeFetch_heap_of_ne_next _ _ hy]
      exact ⟨hmark y, markReceipt_processed r⟩
    constructor
    · intro x hx hcall hun
      rcases List.mem_append.mp hx with hx | hx
      · have hxn : x ≠ w.next := (hw.ok.requests_lt x hx).ne
        have hcall' : w.callOf x = r := by
          have h : ((w.makeFetch r).heap x).parent.getD x = r := hcall
          rwa [(hold x hxn).1] at h
        obtain ⟨hatt, hwait⟩ := hw.expects x hx hcall' ((hold x hxn).2.symm.trans hun)
        refine ⟨List.mem_cons_of_mem _ hatt, .inr ?_⟩
        rcases hwait with hwait | ⟨d, hd, hmain⟩
        · exact ⟨_, List.mem_cons_self, hwait⟩
        · exact ⟨d, List.mem_cons_of_mem _ hd, hmain⟩
      · obtain rfl := List.mem_singleton.mp hx
        exact ⟨List.mem_cons_self, .inl rfl⟩
    · intro hr _
      have hself : (w.makeFetch r).heap r = { w.heap r with processingReceipt := true } :=
        (makeFetch_heap_of_ne_next _ _ hlt.ne).trans (markReceipt_heap_self ..)
      obtain ⟨hproc, hsucc, -⟩ := hw.wants (wantingReceipt_eq_some hwant).1 hneed
      refine ⟨(congrArg Request.processed hself).trans hproc, (congrArg Request.success hself).trans hsucc,
        .inr ⟨w.next, List.mem_append_right _ List.mem_cons_self, ?_, ?_⟩⟩
      · exact congrArg Request.parent hnext
      · exact congrArg Request.processed hnext

/-! ### The end of a call -/

/-- A call comes to `loc_exit` with its main request answered, or without transfers. -/
lemma Pending.checkMain (hw : w.Pending r) : (w.checkMain E).Answered r := by
  intro g hg hpc x hmain hx hcall
  have hloop := checkMain_loop (E := E) (w := w)
  have hreq : (w.checkMain E).requests = w.requests := congrArg Loop.requests hloop
  have hx' : x ∈ w.requests := hreq ▸ hx
  have h := w.mainChecked E
  generalize w.checkMain E = v at h hg hcall ⊢
  cases h with
  | noMain hm =>
    have hm' := congrArg (Option.bind · Frame.main) hg
    rw [goto_main, hm] at hm'
    cases hm'.trans hmain
  | settled f m hf hm hq =>
    obtain rfl := Option.some.inj hg
    obtain rfl := Option.some.inj (hm.symm.trans hmain)
    have hread : w.read E m = w.heap m := if_pos hx'
    rw [hread] at hq
    show ((w.touch .main m).heap m).processed = true
    rw [touch_heap]
    exact (Bool.and_eq_true_iff.mp hq).1
  | waits f m hf hm hq ht =>
    obtain rfl := Option.some.inj hg
    cases hpc
  | ends f m hf hm hq ht =>
    obtain rfl := Option.some.inj hg
    have hcall' : w.callOf x = r := by
      have h : (w.touch .main m).callOf x = r := hcall
      unfold callOf at h ⊢
      rwa [touch_heap] at h
    show ((w.touch .main m).heap x).processed = true
    rw [touch_heap]
    by_contra hp
    obtain ⟨hatt, -⟩ := hw.expects x hx' hcall' (by simpa using hp)
    have hle := hw.ok.attached_le
    have hpos : 0 < w.attached.length := List.length_pos_of_mem hatt
    omega

lemma Expects.release (hw : w.Expects r) : w.release.Expects r :=
  fun x hx => hw x (List.mem_of_mem_filter hx)

lemma Wants.release (hw : w.Wants r) : w.release.Wants r := by
  intro hr hn
  obtain ⟨hp, hsucc, hfetch⟩ := hw (List.mem_of_mem_filter hr) hn
  refine ⟨hp, hsucc, hfetch.imp_right ?_⟩
  rintro ⟨x, hx, hchild, hun⟩
  refine ⟨x, List.mem_filter.mpr ⟨hx, ?_⟩, hchild, hun⟩
  rw [Request.not_releasable_of_unanswered hun]
  rfl

lemma leave_processed : (w.leave.heap x).processed = (w.heap x).processed := by
  rcases w.leave_heap x with h | ⟨-, h⟩ <;> rw [h]

/-- A return to a call that waits, from one whose main request is answered. -/
lemma Expects.leave {f : Frame} (hw : w.Expects r) (hf : w.running = some f) (hcal : w.callers ≠ [])
    (hmain : ∀ x, f.main = some x → x ∈ w.requests → w.callOf x = r → (w.heap x).processed = true) :
    w.leave.Expects r := by
  intro x hx hcall hun
  rw [leave_requests] at hx
  rw [leave_processed] at hun
  have hcall' : w.callOf x = r := by
    unfold callOf at hcall ⊢
    rwa [Request.fixed_parent (leave_fixed x)] at hcall
  obtain ⟨hatt, hwait⟩ := hw x hx hcall' hun
  refine ⟨by rwa [leave_attached], hwait.leave hf hcal fun hm => ?_⟩
  cases hun.symm.trans (hmain x hm hx hcall')

lemma Wants.leave (hw : w.Wants r) : w.leave.Wants r := by
  intro hr hn
  rw [leave_requests] at hr
  have hself : w.leave.heap r = w.heap r := by
    rcases w.leave_heap r with h | ⟨-, h⟩
    · exact h
    · rw [h] at hn
      cases hn
  rw [hself] at hn ⊢
  obtain ⟨hp, hsucc, hfetch⟩ := hw hr hn
  refine ⟨hp, hsucc, hfetch.imp_right ?_⟩
  rintro ⟨x, hx, hchild, hun⟩
  refine ⟨x, by rwa [leave_requests], ?_, ?_⟩
  · rw [Request.fixed_parent (leave_fixed x)]
    exact hchild
  · rwa [leave_processed]

/-- **The release loop of the outermost call takes every request of the call.** -/
lemma Pending.exit (hw : w.Pending r) (hpc : w.pc = some .exit) (hcal : w.callers = []) :
    ∀ x ∈ w.release.requests, w.callOf x ≠ r := by
  intro x hx hcall
  obtain ⟨f, hf, hat⟩ := Option.map_eq_some_iff.mp hpc
  have hmain := hw.outermost.running f hf hcal
  obtain ⟨hlisted, hkept⟩ := List.mem_filter.mp hx
  have hself : w.callOf r = r := (callOf_eq hw.sync.parent).mpr (.inl rfl)
  -- all of them are answered, since only the main request is waited for
  have hanswered : ∀ y ∈ w.requests, w.callOf y = r → (w.heap y).processed = true := by
    intro y hy hycall
    by_contra hun
    obtain ⟨-, hwait⟩ := hw.expects y hy hycall (by simpa using hun)
    have hyr : y = r := by
      rcases hwait with hwait | ⟨d, hd, -⟩
      · rw [hf] at hwait
        exact Option.some.inj (hwait.symm.trans hmain)
      · rw [hcal] at hd
        cases hd
    subst hyr
    exact hun (hw.answered f hf hat y hmain hy hself)
  have hproc := hanswered x hlisted hcall
  have hneed : (w.heap x).needReceipt = false := by
    by_contra hn
    have hn : (w.heap x).needReceipt = true := by simpa using hn
    have hparent := hw.ok.parent_of_need hn
    obtain rfl : x = r := by
      unfold callOf at hcall
      rwa [hparent] at hcall
    obtain ⟨hp, hsucc, hm | ⟨y, hy, hchild, hun⟩⟩ := hw.wants hlisted hn
    · have hnone := List.find?_eq_none.mp (hw.checked (.inr hpc)) x hlisted
      exact hnone (wantsReceipt_iff.mpr ⟨hp, hsucc, hn, hm⟩)
    · cases hun.symm.trans (hanswered y hy (callOf_child hchild))
  have hkeep : (w.heap x).keepActive = false := by
    rcases (callOf_eq hw.sync.parent).mp hcall with rfl | hchild
    · exact hw.sync.keepActive
    · exact (hw.ok.child_fields hchild).2.2.1
  simp [Request.releasable, hproc, hneed, hkeep] at hkept

/-- **A step that finishes what it ends keeps the call waiting, or takes all its requests.** -/
theorem Pending.step (hw : w.Pending r) (ha : w.Finishes r a) (hspare : w.SparesReleased a)
    (h : w.step E a = some w') : w'.Pending r ∨ w'.Forgotten r := by
  have hlive : w'.TransfersLive := (hw.live.step_iff h).mpr hspare.doneBeforeExit
  obtain ⟨f, hf⟩ := Option.isSome_iff_exists.mp hw.running
  have ho := hw.ok
  have hpcf : w.pc = some f.pc := by simp [World.pc, hf]
  have hreq := fun y => step_requests h (x := y)
  have hpend : ∀ f', w'.running = some f' → w'.Expects r → w'.Wants r → w'.Answered r → w'.Pending r :=
    fun f' hf' he hwa han => ⟨ho.step h, hlive, hw.checked.step h, hw.sync.step h, by simp [hf'],
      hw.outermost.step hf h, he, hwa, han⟩
  -- the calls are the same, or one of them was left
  have hrun : a ≠ .curl false → a ≠ .exit → ∃ f', w'.running = some f' := by
    intro hfail hexit
    cases hstep : w'.running with
    | some f' => exact ⟨f', rfl⟩
    | none =>
      cases step_moves hf h with
      | goes f' hrun => cases hstep.symm.trans hrun
      | settles _ _ _ hrun => cases hstep.symm.trans hrun
      | ends _ _ hrun => cases hstep.symm.trans hrun
      | fetches _ _ hrun => cases hstep.symm.trans hrun
      | resumes _ _ _ hrun => cases hstep.symm.trans hrun
      | returns hend => rcases hend with ⟨rfl, -⟩ | ⟨rfl, -⟩ <;> contradiction
  have han : a ≠ .checkMain → w'.Answered r := fun hmain => answered_step hf hmain h
  have hawaits : a ≠ .curl false → a ≠ .exit → ∀ y, w.Awaits y → w'.Awaits y :=
    fun hfail hexit y hy => hy.step hf hfail hexit h
  have hapart : a ≠ .curl false → a ≠ .exit → a ≠ .checkMain → w.Apart r a → w'.Pending r := by
    intro hfail hexit hmain hapart
    obtain ⟨f', hf'⟩ := hrun hfail hexit
    have hu := undisturbed_step ho hw.sync.made hw.sync.parent hapart h
    exact hpend f' hf' (hw.expects.undisturbed ho hw.sync hu hreq (hawaits hfail hexit))
      (hw.wants.undisturbed hw.sync hu hreq) (han hmain)
  cases a with
  | message x m =>
    left
    by_cases hx : w.callOf x = r
    · obtain ⟨f', hf'⟩ := hrun (by simp) (by simp)
      obtain ⟨-, -, rfl⟩ := step_message h
      exact hpend f' hf' (hw.expects.within (Within.processMessage E w x m)) (.message ho hw.sync hx ha) (han (by simp))
    · exact hapart (by simp) (by simp) (by simp) hx
  | error x text =>
    left
    by_cases hx : w.callOf x = r
    · obtain ⟨f', hf'⟩ := hrun (by simp) (by simp)
      simp only [World.step, Option.ite_none_right_eq_some, Option.some.injEq] at h
      obtain ⟨-, rfl⟩ := h
      exact hpend f' hf' (hw.expects.within (Within.processRequestError w x text))
        (hw.wants.error ho hw.sync hx) (han (by simp))
    · exact hapart (by simp) (by simp) (by simp) hx
  | checkReceipts start =>
    left
    by_cases hwant : w.wantingReceipt = some r
    · obtain ⟨f', hf'⟩ := hrun (by simp) (by simp)
      simp only [World.step, Option.ite_none_right_eq_some, Option.some.injEq] at h
      obtain ⟨-, rfl⟩ := h
      obtain ⟨he, hwa⟩ := hw.checkReceipts hwant (ha hwant)
      exact hpend f' hf' he hwa (han (by simp))
    · exact hapart (by simp) (by simp) (by simp) hwant
  | checkMain =>
    left
    obtain ⟨f', hf'⟩ := hrun (by simp) (by simp)
    have hu := undisturbed_step ho hw.sync.made hw.sync.parent (a := .checkMain) trivial h
    have he := hw.expects.undisturbed ho hw.sync hu hreq (hawaits (by simp) (by simp))
    have hwa := hw.wants.undisturbed hw.sync hu hreq
    simp only [World.step, Option.ite_none_right_eq_some, Option.some.injEq] at h
    obtain ⟨-, rfl⟩ := h
    exact hpend f' hf' he hwa hw.checkMain
  | curl ok =>
    left
    cases ok with
    | true => exact hapart (by simp) (by simp) (by simp) fun hok => by cases hok
    | false =>
      obtain ⟨hcal, hmain⟩ := ha.resolve_left (by simp)
      simp only [World.step, Option.ite_none_right_eq_some, Option.some.injEq] at h
      obtain ⟨-, rfl⟩ := h
      obtain ⟨d, ds, hcal'⟩ := List.exists_cons_of_ne_nil hcal
      refine hpend _ (leave_resumes hf hcal').1 (hw.expects.leave hf hcal fun x hm _ hcall => ?_)
        hw.wants.leave (han (by simp))
      exact hmain x (by rw [hf]; exact hm) hcall
  | exit =>
    have hok := ho.step h
    have hsync := hw.sync.step h
    simp only [World.step, Option.ite_none_right_eq_some, Option.some.injEq] at h
    obtain ⟨hpc, rfl⟩ := h
    have hat : f.pc = .exit := Option.some.inj (hpcf.symm.trans hpc)
    by_cases hcal : w.callers = []
    · right
      refine ⟨hok, hsync, fun x hx hcall => ?_⟩
      -- its transfer is done, if it was released
      have hx : x ∈ w.release.leave.requests := hx.elim id (hlive x)
      rw [leave_requests] at hx
      refine hw.exit hpc hcal x hx ?_
      unfold callOf at hcall ⊢
      rwa [Request.fixed_parent (leave_fixed (w := w.release) x)] at hcall
    · left
      obtain ⟨d, ds, hcal'⟩ := List.exists_cons_of_ne_nil hcal
      have hf' : w.release.running = some f := hf
      refine hpend _ (leave_resumes hf' hcal').1
        (hw.expects.release.leave hf' hcal fun x hm hx hcall => ?_) hw.wants.release.leave (han (by simp))
      exact hw.answered f hf hat x hm (List.mem_of_mem_filter hx) hcall
  | done x => exact .inl (hapart (by simp) (by simp) (by simp) ha)
  | call c => exact .inl (hapart (by simp) (by simp) (by simp) trivial)
  | process => exact .inl (hapart (by simp) (by simp) (by simp) trivial)
  | enter => exact .inl (hapart (by simp) (by simp) (by simp) trivial)
  | infoEnd => exact .inl (hapart (by simp) (by simp) (by simp) trivial)

/-! ### The return of a call -/

lemma Pending.of_call (hw : w.Reachable E) (hlive : w.TransfersLive) (hcb : c.callback = none) (hs : c.start = .sent true)
    (hn : w.running = none) : (w.call c).Pending w.next := by
  have hnext := call_heap_next hcb hn hs
  have hchildless := call_childless hcb hn hs hw.ok
  have hpc : w.pc = none := by simp [World.pc, hn]
  have hkeep : c.service.keepActive = false := by
    by_contra hk
    have hsome := c.stream (by simpa using hk)
    rw [hcb] at hsome
    cases hsome
  have hcall : w.call c = { (w.newRequest c.request).addHandle w.next true with
      running := some ⟨some w.next, false, .waitAgain⟩ } := call_sync hcb hn hs
  have hparent : ((w.call c).heap w.next).parent = none := by
    rw [hnext]
    rfl
  refine ⟨hw.ok.call c, hlive.call c, .call (.inl hpc) c, ⟨?_, hparent, ?_, ?_⟩, ?_, .of_call hcb hn hs hw.idle, ?_, ?_, ?_⟩
  · rw [hcall]
    exact Nat.lt_succ_self _
  · rw [hnext]
    exact hcb
  · rw [hnext]
    exact hkeep
  · rw [hcall]
    rfl
  · intro x _ hx _
    rcases (callOf_eq hparent).mp hx with rfl | hchild
    · rw [hcall]
      exact ⟨List.mem_cons_self, .inl rfl⟩
    · exact absurd hchild (hchildless x)
  · apply Wants.of_settled
    rw [hnext]
    rfl
  · intro f hf hexit
    rw [hcall] at hf
    obtain rfl := Option.some.inj hf
    cases hexit

lemma forgets_of_no_memory (ho : w.Ok) (hp : (w.heap r).returnPtr = none) (ha : (w.heap r).account = none) :
    w.Forgets r := by
  intro x _ hcall
  unfold callOf at hcall
  cases hparent : (w.heap x).parent with
  | none =>
    rw [hparent] at hcall
    obtain rfl : x = r := hcall
    exact ⟨hp, ha⟩
  | some p =>
    rw [hparent] at hcall
    obtain rfl : p = r := hcall
    have hfixed : (w.heap x).fixed = ((w.heap p).receiptFetch p).fixed := (ho.child x p hparent).2.2
    exact ⟨(Request.fixed_returnPtr hfixed).trans hp, Request.fixed_account hfixed⟩

lemma Forgotten.forgets (hw : w.Forgotten r) : w.Forgets r :=
  fun x hx hcall => absurd hcall (hw.gone x hx)

lemma step_no_memory (hr : r < w.next) (h : w.step E a = some w')
    (hm : (w.heap r).returnPtr = none ∧ (w.heap r).account = none) :
    (w'.heap r).returnPtr = none ∧ (w'.heap r).account = none := by
  have hfixed := step_fixed h hr
  exact ⟨(Request.fixed_returnPtr hfixed).trans hm.1, (Request.fixed_account hfixed).trans hm.2⟩

lemma Ok.callOf_lt (hw : w.Ok) (hx : w.Listed x) : w.callOf x < w.next := by
  unfold callOf
  cases hparent : (w.heap x).parent with
  | none => exact hw.listed_lt hx
  | some p => exact (hw.child x p hparent).1

/-- The call `r` was made without memory of its caller. -/
structure Unlent (r : ReqId) (w : World) : Prop where
  ok : w.Ok
  made : r < w.next
  memory : (w.heap r).returnPtr = none ∧ (w.heap r).account = none

lemma Unlent.step (hw : w.Unlent r) (h : w.step E a = some w') : w'.Unlent r :=
  ⟨hw.ok.step h, hw.made.trans_le (step_next h).1, step_no_memory hw.made h hw.memory⟩

end World

/-- **A synchronous call leaves no request with memory of its caller** if it hands none over, or if every act
under it finishes what it ends and spares the released requests.  No later act brings one back, so that none
writes to what the caller handed over. -/
theorem memory_forgotten (hw : w.Reachable E) (hcb : c.callback = none) (h : w.syncCall E c as = some t)
    (hgood : c.returnPtr = none ∧ c.account = none ∨ w.TransfersLive ∧
      Every (World.step E) (fun v a => v.Finishes w.next a ∧ v.SparesReleased a) w (.call c :: as)) :
    t.Forgets w.next ∧
      (w.next < t.next → ∀ bs v, run (World.step E) t bs = some v →
        v.Forgets w.next ∧ v.WritesForOthers E w.next) := by
  have hrun := World.syncCall_run h
  obtain ⟨u, hstep, hrest⟩ := run_cons_eq_some.mp hrun
  have hu : u = w.call c := by
    simp only [World.step, Option.ite_none_right_eq_some, Option.some.injEq] at hstep
    exact hstep.2.symm
  subst hu
  have htriv : ∀ {s : World} {acts : List Act}, Every (World.step E) (fun _ _ => True) s acts :=
    every_of_forall fun _ _ => trivial
  by_cases hs : c.start = .noRequest
  · -- no request was made
    have ht : t = w.call c := by
      rcases World.syncCall_cases hcb h with ⟨-, ht, -⟩ | ⟨-, ⟨accepted, hsent⟩, -⟩
      · exact ht
      · cases hs.symm.trans hsent
    have hcall : w.call c = { w with returned := some false } := by
      unfold World.call
      rw [hs]
    rw [ht, hcall]
    refine ⟨fun x hx hcallOf => ?_, fun hlt => absurd hlt (lt_irrefl _)⟩
    exact absurd hcallOf (hw.ok.callOf_lt hx).ne
  · obtain ⟨hnext, hmade⟩ := World.call_made (w := w) hs
    rcases hgood with hmem | ⟨hlive, hgood⟩
    · have hcalled : (w.call c).Unlent w.next := by
        refine ⟨hw.ok.call c, hmade ▸ Nat.lt_succ_self _, ?_⟩
        rw [hnext]
        exact hmem
      have hkeep : ∀ (s : World) (a : Act) (s' : World), s.Unlent w.next → True → s.step E a = some s' →
          s'.Unlent w.next := fun _ _ _ hs _ h => hs.step h
      have ht := run_invariant hkeep hcalled htriv hrest
      refine ⟨World.forgets_of_no_memory ht.ok ht.memory.1 ht.memory.2, fun _ bs v hv => ?_⟩
      have hv' := run_invariant hkeep ht htriv hv
      have hforgets := World.forgets_of_no_memory hv'.ok hv'.memory.1 hv'.memory.2
      exact ⟨hforgets, hforgets.writesForOthers⟩
    · obtain ⟨hsent, hpc⟩ := (hgood.1.1 rfl).resolve_left hs
      have hn : w.running = none := Option.map_eq_none_iff.mp hpc
      have hend : t.running = none := by
        rcases World.syncCall_cases hcb h with ⟨rfl, rfl, -⟩ | ⟨-, -, hawait⟩
        · -- a call that waits has not returned
          have hrunning : (w.call c).running ≠ none := by
            rw [World.call_sync hcb hn hsent]
            exact Option.some_ne_none _
          unfold World.syncCall at h
          rw [if_neg (by simp [hn])] at h
          unfold World.await at h
          rw [if_pos (Option.isSome_iff_ne_none.mpr hrunning)] at h
          cases h
        · exact (World.await_run hawait).2.2
      have hkeep : ∀ (s : World) (a : Act) (s' : World), s.Pending w.next ∨ s.Forgotten w.next →
          s.Finishes w.next a ∧ s.SparesReleased a → s.step E a = some s' →
            s'.Pending w.next ∨ s'.Forgotten w.next := by
        rintro s a s' (hp | hf) ha hs
        · exact hp.step ha.1 ha.2 hs
        · exact .inr (hf.step hs)
      have ht : t.Forgotten w.next := by
        have hcalled : (w.call c).Pending w.next := .of_call hw hlive hcb hsent hn
        rcases run_invariant hkeep (.inl hcalled) (hgood.2 _ hstep) hrest with hp | hf
        · exact absurd hp.running (by rw [hend]; exact Bool.false_ne_true)
        · exact hf
      refine ⟨ht.forgets, fun _ bs v hv => ?_⟩
      have hforgets :=
        (run_invariant (P := fun _ _ => True) (fun _ _ _ hf _ hs => hf.step hs) ht htriv hv).forgets
      exact ⟨hforgets, hforgets.writesForOthers⟩

/-- `aergo_get_receipt` for the transaction with the hash 9…9, with the receipt at 1. -/
def syncReceipt : Call where
  service := .receipt
  callback := none
  stream := nofun
  wait := fun _ => rfl
  arg := 0
  returnPtr := some 1
  returnSize := 0
  txnHash := Vector.replicate 32 9
  account := none
  start := .sent true

def transferAndReceipt : List Act :=
  [.enter, .message 0 acceptedAnswer, .curl true, .done 0, .infoEnd, .checkReceipts (.sent true), .enter,
   .message 1 receiptAnswer, .curl true, .done 1, .infoEnd, .checkReceipts .noRequest, .checkMain, .exit,
   .checkReceipts .noRequest, .checkMain, .exit]

theorem memory_forgotten_transferAndReceipt :
    ∃ t, newInstance.syncCall sampleEnv syncTransfer transferAndReceipt = some t ∧ t.Forgets 0 := by
  have h : ∃ t, newInstance.syncCall sampleEnv syncTransfer transferAndReceipt = some t := ⟨_, rfl⟩
  have hgood : Every (World.step sampleEnv) (fun v a => v.Finishes 0 a ∧ v.SparesReleased a) newInstance
      (.call syncTransfer :: transferAndReceipt) := by decide
  obtain ⟨t, h⟩ := h
  exact ⟨t, h, (memory_forgotten (.start _ _) rfl h (.inr ⟨by decide, hgood⟩)).1⟩

/-- **A receipt is written after its call has returned**: libcurl fails under `aergo_get_receipt`, and the
answer comes during a later `aergo_process_requests`. -/
theorem returned_call_writes_receipt :
    ∃ t v, newInstance.syncCall sampleEnv syncReceipt [.enter, .curl false] = some t ∧
      t.returned = some false ∧ ¬ t.Forgets 0 ∧
      run (World.step sampleEnv) t [.process, .enter, .message 0 receiptAnswer] = some v ∧
      t.receipts 1 = .initial ∧ v.receipts 1 = .decoded (Vector.replicate 32 9) sampleReceipt := by
  refine ⟨_, _, rfl, rfl, fun h => ?_, rfl, rfl, rfl⟩
  cases (h 0 (.inl (by decide)) rfl).1

end Libaergo
