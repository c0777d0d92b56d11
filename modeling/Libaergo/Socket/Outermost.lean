import Libaergo.Socket.Completion

/-!
# The calls that wait for each other

What a step does to the stack of calls of `aergo_process_requests__internal`, to the requests in the list
and to the receipts of the program.  The call at the bottom of the stack is the one that the program
waits for: it keeps its main request, and ends with the success that it read in it.
-/

namespace Libaergo

open Lib

variable {E : Env} {w w' : World} {a : Act} {r x : ReqId}

/-! ### The stack of calls -/

/-- The main request is processed, and no receipt is wanted. -/
def Request.settled (q : Request) : Bool := q.processed && !q.needReceipt

/-- What a step does to the calls while `f` is the running one. -/
inductive World.Moves (E : Env) (w w' : World) (f : Frame) : Act → Prop
  /-- The call goes on, short of `loc_exit`. -/
  | goes {a : Act} (f' : Frame) (hrun : w'.running = some f') (hcal : w'.callers = w.callers)
      (hmain : f'.main = f.main) (hs : f'.success = f.success) (hpc : f.pc ≠ .exit)
      (hpc' : f'.pc ≠ .exit) :
    w.Moves E w' f a
  /-- Its main request is settled. -/
  | settles (m : ReqId) (hm : f.main = some m) (hq : (w.read E m).settled = true)
      (hrun : w'.running = some { f with success := (w.read E m).success, pc := .exit })
      (hcal : w'.callers = w.callers) :
    w.Moves E w' f .checkMain
  /-- It ends with its main request as it is. -/
  | ends (hpc : f.pc = .checkMain) (hm : ∀ m, f.main = some m → (w.read E m).settled = false)
      (hrun : w'.running = some { f with pc := .exit }) (hcal : w'.callers = w.callers) :
    w.Moves E w' f .checkMain
  /-- It calls the function for the receipt of the request `p`. -/
  | fetches {start : Start} (c p : ReqId) (hrun : w'.running = some ⟨some c, false, .waitAgain⟩)
      (hcal : w'.callers = ⟨f.main, p⟩ :: w.callers) :
    w.Moves E w' f (.checkReceipts start)
  /-- It returns to the call that waits for it. -/
  | resumes {a : Act} (c : Caller) (cs : List Caller) (hcal : w.callers = c :: cs)
      (hrun : w'.running = some ⟨c.main, false, .checkReceipts⟩) (hcal' : w'.callers = cs) :
    w.Moves E w' f a
  /-- It returns to the program. -/
  | returns {a : Act} (ha : a = .curl false ∧ f.pc = .perform ∨ a = .exit ∧ f.pc = .exit)
      (hcal : w.callers = []) (hrun : w'.running = none) (hcal' : w'.callers = [])
      (hret : w'.returned = f.main.map fun _ => f.success) :
    w.Moves E w' f a

namespace World

section Moves

variable {f : Frame} (hf : w.running = some f)

include hf

lemma goto_moves {pc : Pc} (hpc : f.pc ≠ .exit) (hpc' : pc ≠ .exit) :
    w.Moves E (w.goto pc) f a := by
  refine .goes { f with pc := pc } ?_ rfl rfl rfl hpc hpc'
  simp [goto, hf]

lemma leave_returns (hc : w.callers = []) :
    w.leave.running = none ∧ w.leave.callers = [] ∧
      w.leave.returned = f.main.map fun _ => f.success := by
  unfold leave
  rw [hf]
  dsimp only
  rw [hc]
  exact ⟨rfl, rfl, rfl⟩

lemma leave_moves (ha : a = .curl false ∧ f.pc = .perform ∨ a = .exit ∧ f.pc = .exit) :
    w.Moves E w.leave f a := by
  cases hc : w.callers with
  | nil =>
    obtain ⟨hrun, hcal, hret⟩ := leave_returns hf hc
    exact .returns ha hc hrun hcal hret
  | cons c cs =>
    unfold leave
    rw [hf]
    dsimp only
    rw [hc]
    exact .resumes c cs hc rfl rfl

lemma call_moves (hpc : f.pc = .perform) (c : Call) : w.Moves E (w.call c) f a := by
  have hne : f.pc ≠ .exit := by simp [hpc]
  unfold World.call
  split
  · exact .goes f hf rfl rfl rfl hne hne
  · exact .goes f hf rfl rfl rfl hne hne
  · dsimp only
    split
    · exact .goes f hf rfl rfl rfl hne hne
    · split
      · exact .goes f hf rfl rfl rfl hne hne
      · next hrun =>
        have hrun' : w.running.isSome = true := by simp [hf]
        exact absurd hrun' hrun

lemma checkReceipts_moves (hpc : f.pc = .checkReceipts) (start : Start) :
    w.Moves E (w.checkReceipts start) f (.checkReceipts start) := by
  have hne : f.pc ≠ .exit := by simp [hpc]
  unfold World.checkReceipts
  split
  · exact goto_moves hf hne (by decide)
  · next p _ =>
    dsimp only
    split
    · exact .goes f hf rfl rfl rfl hne hne
    · exact .goes f hf rfl rfl rfl hne hne
    · split
      · exact .goes f hf rfl rfl rfl hne hne
      · refine .fetches w.next p rfl ?_
        show (⟨w.running.bind Frame.main, p⟩ :: w.callers : List Caller) = _
        rw [hf]
        rfl

lemma checkMain_moves (hpc : f.pc = .checkMain) : w.Moves E (w.checkMain E) f .checkMain := by
  unfold World.checkMain
  have hmain : w.running.bind Frame.main = f.main := by simp [hf]
  rw [hmain]
  cases hm : f.main with
  | none =>
    refine .ends hpc (by simp [hm]) ?_ rfl
    simp [goto, hf]
  | some m =>
    have h := w.touch_loop m .main
    have hrun : (w.touch .main m).running = some f := (congrArg Loop.running h).trans hf
    have hcal : (w.touch .main m).callers = w.callers := congrArg Loop.callers h
    dsimp only
    split
    · next hq =>
      refine .settles m hm hq ?_ hcal
      simp [hrun]
    · next hq =>
      have hq' : ∀ m', f.main = some m' → (w.read E m').settled = false := by
        intro m' hm'
        obtain rfl := Option.some.inj (hm.symm.trans hm')
        exact Bool.eq_false_iff.mpr hq
      split
      · refine .goes { f with pc := .waitAgain } ?_ hcal rfl rfl (by simp [hpc]) (by simp)
        simp [goto, hrun]
      · refine .ends hpc hq' ?_ hcal
        simp [goto, hrun]

/-- **What a step does to the calls.** -/
theorem step_moves (h : w.step E a = some w') : w.Moves E w' f a := by
  have hpc' : ∀ {pc : Pc}, w.pc = some pc → f.pc = pc := by
    intro pc h
    simpa [World.pc, hf] using h
  cases a <;> simp only [World.step, Option.ite_none_right_eq_some, Option.some.injEq] at h <;>
    obtain ⟨hpc, rfl⟩ := h
  case call c =>
    rcases hpc with hpc | hpc
    · simp [World.pc, hf] at hpc
    · exact call_moves hf (hpc' hpc) c
  case process => simp [World.pc, hf] at hpc
  case enter =>
    have hne : f.pc ≠ .exit := by simp [hpc' hpc]
    apply goto_moves hf hne
    split <;> decide
  case error y text =>
    have h := (Within.processRequestError w y text).loop
    have hne : f.pc ≠ .exit := by simp [hpc' hpc.1]
    exact .goes f ((congrArg Loop.running h).trans hf) (congrArg Loop.callers h) rfl rfl hne hne
  case message y m =>
    have h := (Within.processMessage E w y m).loop
    have hne : f.pc ≠ .exit := by simp [hpc' hpc.1]
    exact .goes f ((congrArg Loop.running h).trans hf) (congrArg Loop.callers h) rfl rfl hne hne
  case curl ok =>
    cases ok with
    | true => exact goto_moves hf (by simp [hpc' hpc]) (by decide)
    | false => exact leave_moves hf (.inl ⟨rfl, hpc' hpc⟩)
  case done y =>
    have hne : f.pc ≠ .exit := by simp [hpc' hpc.1]
    exact .goes f hf rfl rfl rfl hne hne
  case infoEnd => exact goto_moves hf (by simp [hpc' hpc]) (by decide)
  case checkReceipts start => exact checkReceipts_moves hf (hpc' hpc) start
  case checkMain => exact checkMain_moves hf (hpc' hpc)
  case exit =>
    have h : w.release.Moves E w.release.leave f .exit := leave_moves hf (.inr ⟨rfl, hpc' hpc⟩)
    cases h with
    | goes f' hrun hcal hmain hs hpc hpc' => exact .goes f' hrun hcal hmain hs hpc hpc'
    | resumes c cs hcal hrun hcal' => exact .resumes c cs hcal hrun hcal'
    | returns ha hcal hrun hcal' hret => exact .returns ha hcal hrun hcal' hret

end Moves

/-- Nobody waits when no call runs. -/
def Idle (w : World) : Prop := w.running = none → w.callers = []

lemma Idle.of_some {f : Frame} (h : w.running = some f) : w.Idle := fun hn => nomatch hn.symm.trans h

lemma Idle.step (hw : w.Idle) (h : w.step E a = some w') : w'.Idle := by
  cases hf : w.running with
  | some f =>
    cases step_moves hf h with
    | goes _ hrun => exact .of_some hrun
    | settles _ _ _ hrun => exact .of_some hrun
    | ends _ _ hrun => exact .of_some hrun
    | fetches _ _ hrun => exact .of_some hrun
    | resumes _ _ _ hrun => exact .of_some hrun
    | returns _ _ _ hcal => exact fun _ => hcal
  | none =>
    have hpc : w.pc = none := by simp [World.pc, hf]
    cases a <;> simp [World.step, hpc] at h
    case call c =>
      subst h
      unfold World.call
      split
      · exact hw
      · exact hw
      · dsimp only
        split
        · exact hw
        · split
          · exact hw
          · exact .of_some rfl
    case process =>
      subst h
      unfold World.process
      split
      · exact hw
      · exact .of_some rfl

/-- The call at the bottom of the stack waits for the request `r`, and none has its success before it comes
to `loc_exit`. -/
structure Outermost (r : ReqId) (w : World) : Prop where
  running : ∀ f, w.running = some f → w.callers = [] → f.main = some r
  callers : ∀ c, w.callers.getLast? = some c → c.main = some r
  unfinished : ∀ f, w.running = some f → f.pc ≠ .exit → f.success = false

/-- **The outermost call keeps its main request.** -/
theorem Outermost.step {f : Frame} (hw : w.Outermost r) (hf : w.running = some f)
    (h : w.step E a = some w') : w'.Outermost r := by
  have hsame : ∀ f', w'.running = some f' → w'.callers = w.callers → f'.main = f.main →
      (f'.pc ≠ .exit → f'.success = false) → w'.Outermost r := by
    intro f' hrun hcal hmain hs
    refine ⟨fun g hg hc => ?_, fun c hc => hw.callers c (hcal ▸ hc), fun g hg hpc => ?_⟩
    · obtain rfl := Option.some.inj (hrun.symm.trans hg)
      exact hmain.trans (hw.running f hf (hcal ▸ hc))
    · obtain rfl := Option.some.inj (hrun.symm.trans hg)
      exact hs hpc
  cases step_moves hf h with
  | goes f' hrun hcal hmain hs hpc hpc' =>
    exact hsame f' hrun hcal hmain fun _ => hs.trans (hw.unfinished f hf hpc)
  | settles m hm hq hrun hcal => exact hsame _ hrun hcal rfl fun hpc => absurd rfl hpc
  | ends hpc hm hrun hcal => exact hsame _ hrun hcal rfl fun hpc => absurd rfl hpc
  | fetches c p hrun hcal =>
    refine ⟨fun g _ hc => ?_, fun c hc => ?_, fun g hg _ => ?_⟩
    · rw [hcal] at hc
      cases hc
    · rw [hcal] at hc
      cases hcs : w.callers with
      | nil =>
        rw [hcs] at hc
        obtain rfl := Option.some.inj hc
        exact hw.running f hf hcs
      | cons c' cs =>
        rw [hcs, List.getLast?_cons_cons, ← hcs] at hc
        exact hw.callers c hc
    · obtain rfl := Option.some.inj (hrun.symm.trans hg)
      rfl
  | resumes c cs hcal hrun hcal' =>
    refine ⟨fun g hg hc => ?_, fun c' hc => ?_, fun g hg _ => ?_⟩
    · obtain rfl := Option.some.inj (hrun.symm.trans hg)
      rw [hcal'] at hc
      apply hw.callers c
      rw [hcal, hc]
      rfl
    · rw [hcal'] at hc
      apply hw.callers c'
      cases cs with
      | nil => cases hc
      | cons c'' cs => rwa [hcal, List.getLast?_cons_cons]
    · obtain rfl := Option.some.inj (hrun.symm.trans hg)
      rfl
  | returns ha hcal hrun hcal' hret =>
    refine ⟨fun g hg => ?_, fun c hc => ?_, fun g hg => ?_⟩
    · exact nomatch hrun.symm.trans hg
    · rw [hcal'] at hc
      cases hc
    · exact nomatch hrun.symm.trans hg

/-! ### Requests that come into the list -/

/-- The request is in the list, or its transfer is attached. -/
def Listed (w : World) (x : ReqId) : Prop := x ∈ w.requests ∨ x ∈ w.attached

lemma Ok.listed_lt (hw : w.Ok) (hx : w.Listed x) : x < w.next := by
  rcases hx with hx | hx
  · exact hw.requests_lt x hx
  · exact hw.attached_lt x hx

lemma Listed.congr (hreq : w'.requests = w.requests) (hatt : w'.attached = w.attached)
    (hx : w'.Listed x) : w.Listed x := by
  unfold Listed at hx
  rwa [hreq, hatt] at hx

lemma Listed.of_loop {running : Option Frame} (h : w'.loop = { w.loop with running := running })
    (hx : w'.Listed x) : w.Listed x := by
  have hreq : w'.requests = w.requests := congrArg Loop.requests h
  have hatt : w'.attached = w.attached := congrArg Loop.attached h
  exact hx.congr hreq hatt

lemma Listed.of_new (hreq : w'.requests = w.requests ++ [w.next])
    (hatt : w'.attached = w.attached ∨ w'.attached = w.next :: w.attached) (hx : w'.Listed x) :
    w.Listed x ∨ x = w.next := by
  rcases hx with hx | hx
  · rw [hreq] at hx
    rcases List.mem_append.mp hx with hx | hx
    · exact .inl (.inl hx)
    · exact .inr (List.mem_singleton.mp hx)
  · rcases hatt with hatt | hatt <;> rw [hatt] at hx
    · exact .inl (.inr hx)
    · rcases List.mem_cons.mp hx with rfl | hx
      · exact .inr rfl
      · exact .inl (.inr hx)

lemma addHandle_attached (r : ReqId) (accepted : Bool) :
    (w.addHandle r accepted).attached = w.attached ∨
      (w.addHandle r accepted).attached = r :: w.attached := by
  cases accepted with
  | true => exact .inr rfl
  | false => exact .inl rfl

lemma call_cases (c : Call) :
    (w.call c).requests = w.requests ∧ (w.call c).attached = w.attached ∨
      (w.call c).heap w.next = c.request ∧ (w.call c).requests = w.requests ++ [w.next] ∧
        ((w.call c).attached = w.attached ∨ (w.call c).attached = w.next :: w.attached) := by
  have hnext : (w.newRequest c.request).heap w.next = c.request := newRequest_heap_next ..
  unfold World.call
  split
  · exact .inl ⟨rfl, rfl⟩
  · exact .inr ⟨hnext, rfl, .inl rfl⟩
  · next accepted _ =>
    have hatt := addHandle_attached (w := w.newRequest c.request) w.next accepted
    dsimp only
    split
    · exact .inr ⟨hnext, rfl, hatt⟩
    · split <;> exact .inr ⟨hnext, rfl, hatt⟩

/-- What `loc_check_receipts` does to the requests: nothing, or it makes the fetch of the receipt that it
finds wanting. -/
lemma checkReceipts_cases (start : Start) :
    (w.checkReceipts start).requests = w.requests ∧ (w.checkReceipts start).attached = w.attached ∨
      ∃ p, w.wantingReceipt = some p ∧
        ((w.checkReceipts start).heap w.next).fixed = (w.heap p).receiptFetch p ∧
        (w.checkReceipts start).requests = w.requests ++ [w.next] ∧
        ((w.checkReceipts start).attached = w.attached ∨
          (w.checkReceipts start).attached = w.next :: w.attached) := by
  unfold World.checkReceipts
  split
  · exact .inl ⟨rfl, rfl⟩
  · next p hp =>
    have hmark := modify_fixed (w := w) (r := p) (f := fun q => { q with processingReceipt := true })
      (fun _ => rfl) p
    set w1 := w.modify p fun q => { q with processingReceipt := true }
    have hfetch : (w1.heap p).receiptFetch p = (w.heap p).receiptFetch p :=
      Request.receiptFetch_congr hmark p
    have hnew : ((w1.newRequest ((w1.heap p).receiptFetch p)).heap w.next).fixed =
        (w.heap p).receiptFetch p := by
      have h : (w1.newRequest ((w1.heap p).receiptFetch p)).heap w.next = (w1.heap p).receiptFetch p :=
        newRequest_heap_next w1 _
      rw [h, hfetch]
      rfl
    dsimp only
    split
    · exact .inl ⟨rfl, rfl⟩
    · refine .inr ⟨p, hp, ?_, rfl, .inl rfl⟩
      exact (modify_fixed (f := fun q => { q with needReceipt := false }) (fun _ => rfl) w.next).trans hnew
    · next _ accepted =>
      have hatt := addHandle_attached (w := w1.newRequest ((w1.heap p).receiptFetch p)) w1.next accepted
      split
      · exact .inr ⟨p, hp, hnew, rfl, hatt⟩
      · exact .inr ⟨p, hp, hnew, rfl, hatt⟩

/-- **What a step lists**: what was listed, or a new request, which is the one of a call or the fetch of a
receipt. -/
theorem step_listed (h : w.step E a = some w') (hx : w'.Listed x) :
    w.Listed x ∨ x = w.next ∧ ((∃ c, a = .call c ∧ w'.heap x = c.request) ∨
      ∃ p, w.wantingReceipt = some p ∧ (w'.heap x).fixed = (w.heap p).receiptFetch p) := by
  cases a <;> simp only [World.step, Option.ite_none_right_eq_some, Option.some.injEq] at h <;>
    obtain ⟨hpc, rfl⟩ := h
  case call c =>
    rcases call_cases (w := w) c with ⟨hreq, hatt⟩ | ⟨hnext, hreq, hatt⟩
    · exact .inl (hx.congr hreq hatt)
    · rcases hx.of_new hreq hatt with hx | rfl
      · exact .inl hx
      · exact .inr ⟨rfl, .inl ⟨c, rfl, hnext⟩⟩
  case checkReceipts start =>
    rcases checkReceipts_cases (w := w) start with ⟨hreq, hatt⟩ | ⟨p, hp, hnext, hreq, hatt⟩
    · exact .inl (hx.congr hreq hatt)
    · rcases hx.of_new hreq hatt with hx | rfl
      · exact .inl hx
      · exact .inr ⟨rfl, .inr ⟨p, hp, hnext⟩⟩
  case process =>
    unfold World.process at hx
    split at hx <;> exact .inl hx
  case error y text => exact .inl (hx.of_loop (Within.processRequestError w y text).loop)
  case message y m => exact .inl (hx.of_loop (Within.processMessage E w y m).loop)
  case curl ok =>
    split at hx
    · exact .inl hx
    · exact .inl (hx.congr w.leave_requests w.leave_attached)
  case done y => exact .inl (hx.imp_right List.mem_of_mem_erase)
  case checkMain => exact .inl (hx.of_loop checkMain_loop)
  case exit =>
    have hx' : w.release.Listed x := hx.congr w.release.leave_requests w.release.leave_attached
    exact .inl (hx'.imp_left List.mem_of_mem_filter)
  all_goals exact .inl hx

/-- The fetches of the receipt of a request were there before, or it wants one. -/
lemma step_children (ho : w.Ok) (hr : r < w.next) (hp : (w.heap r).parent = none)
    (h : w.step E a = some w') (hx : (w'.heap x).parent = some r) :
    (w.heap x).parent = some r ∨ w.wantingReceipt = some r := by
  by_cases ha : w.Apart r a
  · exact .inl ((undisturbed_step ho hr hp ha h).new x hx)
  · cases a <;> simp only [World.step, Option.ite_none_right_eq_some, Option.some.injEq] at h <;>
      obtain ⟨hpc, rfl⟩ := h
    case error y text =>
      exact .inl ((Request.fixed_parent ((Within.processRequestError w y text).fixed x)).symm.trans hx)
    case message y m =>
      exact .inl ((Request.fixed_parent ((Within.processMessage E w y m).fixed x)).symm.trans hx)
    case curl ok =>
      split at hx
      · exact .inl hx
      · exact .inl ((Request.fixed_parent (leave_fixed x)).symm.trans hx)
    case done y => exact .inl hx
    case checkReceipts start => exact .inr (not_not.mp ha)
    case exit => exact .inl ((Request.fixed_parent (leave_fixed (w := w.release) x)).symm.trans hx)
    all_goals exact absurd trivial ha

/-! ### What a step writes -/

/-- The memory of the caller that the handlers write to. -/
def memory (w : World) : (ℕ → TransactionReceipt) × (ℕ → AccountState) := (w.receipts, w.accounts)

lemma touch_memory (kind : UseKind) : (w.touch kind r).memory = w.memory :=
  congrArg₂ Prod.mk (touch_receipts ..) (touch_accounts ..)

lemma invoke_memory (o : Outcome) : (w.invoke r o).memory = w.memory :=
  congrArg₂ Prod.mk (invoke_receipts ..) (invoke_accounts ..)

lemma leave_memory : w.leave.memory = w.memory := congrArg₂ Prod.mk w.leave_receipts w.leave_accounts

lemma onFailedReceipt_memory : (onFailedReceipt w r).2.memory = w.memory := by
  unfold onFailedReceipt
  dsimp only
  split
  · exact invoke_memory _
  · next p _ =>
    split
    · split
      · exact (invoke_memory _).trans (touch_memory _)
      · exact touch_memory _
    · exact (invoke_memory _).trans (touch_memory _)

/-- Error texts are not written to it. -/
lemma processRequestError_memory (text : Bytes) : (processRequestError w x text).memory = w.memory := by
  unfold processRequestError
  dsimp only
  split
  · exact touch_memory _
  · next h _ =>
    cases h with
    | query => exact (invoke_memory _).trans (touch_memory _)
    | failedReceipt => exact onFailedReceipt_memory.trans (touch_memory _)

lemma call_memory (c : Call) : (w.call c).memory = w.memory := by
  have h := w.called c
  generalize w.call c = v at h ⊢
  cases h <;> rfl

lemma call_receipts (c : Call) : (w.call c).receipts = w.receipts := congrArg Prod.fst (call_memory c)

lemma checkReceipts_memory (start : Start) : (w.checkReceipts start).memory = w.memory := by
  have h := w.checked start
  generalize w.checkReceipts start = v at h ⊢
  cases h <;> rfl

lemma checkMain_memory : (w.checkMain E).memory = w.memory := by
  have h := w.mainChecked E
  generalize w.checkMain E = v at h ⊢
  cases h with
  | noMain => rfl
  | settled => exact touch_memory _
  | waits => exact touch_memory _
  | ends => exact touch_memory _

/-- **Only messages are written to the memory of the caller.** -/
theorem step_memory (h : w.step E a = some w') :
    w'.memory = w.memory ∨ ∃ y m, a = .message y m ∧ w' = processMessage E w y m := by
  cases a <;> simp only [World.step, Option.ite_none_right_eq_some, Option.some.injEq] at h <;>
    obtain ⟨-, rfl⟩ := h
  case message y m => exact .inr ⟨y, m, rfl, rfl⟩
  case call c => exact .inl (call_memory c)
  case process =>
    left
    unfold World.process
    split <;> rfl
  case error y text => exact .inl (processRequestError_memory text)
  case curl ok =>
    left
    split
    · rfl
    · exact leave_memory
  case checkReceipts start => exact .inl (checkReceipts_memory start)
  case checkMain => exact .inl checkMain_memory
  case exit => exact .inl (leave_memory (w := w.release))
  all_goals exact .inl rfl

/-- A receipt is written by the messages of the requests that it was handed to. -/
theorem step_receipts {ptr : ℕ} (h : w.step E a = some w')
    (hm : ∀ x m, a = .message x m → (w.heap x).returnPtr ≠ some ptr) :
    w'.receipts ptr = w.receipts ptr := by
  rcases step_memory h with h | ⟨y, m, rfl, rfl⟩
  · exact congrFun (congrArg Prod.fst h) ptr
  · exact (Within.processMessage E w y m).receipts ptr (hm y m rfl)

/-- An account is written by the messages of the requests that it was handed to. -/
theorem step_accounts {ptr : ℕ} (h : w.step E a = some w')
    (hm : ∀ x m, a = .message x m → (w.heap x).account ≠ some ptr) :
    w'.accounts ptr = w.accounts ptr := by
  rcases step_memory h with h | ⟨y, m, rfl, rfl⟩
  · exact congrFun (congrArg Prod.snd h) ptr
  · exact (Within.processMessage E w y m).accounts ptr (hm y m rfl)

/-- The request is answered as before, and wants no receipt that it did not want. -/
structure Keeps (r : ReqId) (w w' : World) : Prop where
  processed : (w.heap r).processed = true → (w'.heap r).processed = true
  success : (w'.heap r).success = (w.heap r).success
  need : (w'.heap r).needReceipt = true → (w.heap r).needReceipt = true

lemma Keeps.of_eq (h : w'.heap r = w.heap r) : Keeps r w w' := by
  constructor <;> rw [h]
  · exact id
  · exact id

lemma Keeps.trans {w'' : World} (h : Keeps r w w') (h' : Keeps r w' w'') : Keeps r w w'' :=
  ⟨h'.processed ∘ h.processed, h'.success.trans h.success, h.need ∘ h'.need⟩

lemma Keeps.modify {f : Request → Request} (hp : ∀ q, (f q).processed = q.processed)
    (hs : ∀ q, (f q).success = q.success)
    (hn : ∀ q, (f q).needReceipt = true → q.needReceipt = true) : Keeps r w (w.modify x f) := by
  by_cases hx : r = x
  · subst hx
    constructor <;> rw [modify_heap_self]
    · rw [hp]
      exact id
    · exact hs _
    · exact hn _
  · exact .of_eq (modify_heap_ne _ _ _ hx)

lemma Keeps.within (hr : r ≠ x) (h : Within x w w') : Keeps r w w' := by
  refine ⟨h.processed r, h.success r hr, fun hn => ?_⟩
  rcases h.need r hn with hn | ⟨rfl, -⟩
  · exact hn
  · exact absurd rfl hr

lemma Keeps.newRequest (hr : r < w.next) (q : Request) : Keeps r w (w.newRequest q) :=
  .of_eq (newRequest_heap_ne _ _ hr.ne)

lemma Keeps.leave : Keeps r w w.leave := by
  rcases w.leave_heap r with h | ⟨-, h⟩
  · exact .of_eq h
  · constructor <;> rw [h]
    · exact id
    · exact nofun

lemma Keeps.call (hr : r < w.next) (c : Call) : Keeps r w (w.call c) := by
  have hold : (w.newRequest c.request).heap r = w.heap r := newRequest_heap_ne _ _ hr.ne
  unfold World.call
  split
  · exact .of_eq rfl
  · exact .of_eq hold
  · dsimp only
    split
    · exact .of_eq hold
    · split <;> exact .of_eq hold

lemma Keeps.checkReceipts (hr : r < w.next) (start : Start) : Keeps r w (w.checkReceipts start) := by
  unfold World.checkReceipts
  split
  · exact .of_eq rfl
  · next p _ =>
    have hmark : Keeps r w (w.modify p fun q => { q with processingReceipt := true }) :=
      .modify (fun _ => rfl) (fun _ => rfl) fun _ h => h
    set w1 := w.modify p fun q => { q with processingReceipt := true }
    have hgive : ∀ v : World, Keeps r v (v.giveUpReceipt p) :=
      fun v => .modify (fun _ => rfl) (fun _ => rfl) fun _ h => nomatch h
    have hnew : Keeps r w (w1.newRequest ((w1.heap p).receiptFetch p)) :=
      hmark.trans (.newRequest (w := w1) hr _)
    dsimp only
    split
    · exact hmark.trans (hgive w1)
    · exact hnew.trans (hgive _)
    · split <;> exact hnew.trans (.of_eq rfl)

lemma Keeps.checkMain : Keeps r w (w.checkMain E) := by
  unfold World.checkMain
  split
  · exact .of_eq rfl
  · next m _ =>
    have h : (w.touch .main m).heap r = w.heap r := by rw [touch_heap]
    dsimp only
    split
    · exact .of_eq h
    · split <;> exact .of_eq h

/-- **Only a message changes the answer of a request without an error handler.** -/
theorem step_keeps (hr : r < w.next) (he : (w.heap r).processError = none) (h : w.step E a = some w')
    (hm : ∀ m, a ≠ .message r m) : Keeps r w w' := by
  cases a <;> simp only [World.step, Option.ite_none_right_eq_some, Option.some.injEq] at h <;>
    obtain ⟨-, rfl⟩ := h
  case call c => exact .call hr c
  case process =>
    unfold World.process
    split <;> exact .of_eq rfl
  case error y text =>
    by_cases hy : r = y
    · subst hy
      rw [processRequestError_of_none _ he]
      constructor <;> rw [failing_heap_self]
      · exact fun _ => rfl
      · exact id
    · exact .within hy (Within.processRequestError w y text)
  case message y m =>
    have hy : r ≠ y := by
      rintro rfl
      exact hm m rfl
    exact .within hy (Within.processMessage E w y m)
  case curl ok =>
    split
    · exact .of_eq rfl
    · exact .leave
  case checkReceipts start => exact .checkReceipts hr start
  case checkMain => exact .checkMain
  case exit =>
    have h : Keeps r w w.release := .of_eq rfl
    exact h.trans .leave
  all_goals exact .of_eq rfl

end World

end Libaergo
