import Libaergo.Socket.Completion

/-!
# Where the receipts go

`handle_transfer_response` decides from the answer of the node alone that the receipt is fetched, and the fetch
takes the callback and the receipt of the transaction.  Every function that makes a contract call or asks for a
receipt insists on one of the two; `aergo_transfer_bignum` lets a null receipt through, so as not to ask for it.
The requests for receipts have somewhere to put them in the runs in which no fetch is begun for such a transfer.
-/

namespace Libaergo

open Lib

variable {E : Env} {w w' : World} {a : Act} {c : Call} {x r : ReqId}

/-! ### Destinations -/

/-- The request has a callback or a result. -/
def Request.HasPlace (q : Request) : Prop := q.callback ≠ none ∨ q.returnPtr ≠ none

instance (q : Request) : Decidable q.HasPlace := inferInstanceAs (Decidable (_ ∨ _))

/-- The argument checks of the functions that make requests: `if (!cb) return false;` of the asynchronous ones,
and `if (!receipt) return false;` or `if (!result || resultlen <= 0) return false;` of those that wait,
`aergo_transfer_bignum` excepted. -/
def Call.Checked (c : Call) : Prop :=
  match c.service with
  | .contractCall | .receipt | .query | .queryStateVar => c.request.HasPlace
  | .transfer | .events | .blocks | .blockchainStatus | .accountState => True

/-- The calls pass the checks. -/
def Act.Checked : Act → Prop
  | .call c => c.Checked
  | _ => True

/-- **Every request for a receipt has somewhere to put it**: those that are made for a transaction, and all
others. -/
structure World.Destined (w : World) : Prop where
  fetched : ∀ x < w.next, (w.heap x).parent ≠ none → (w.heap x).HasPlace
  notNull : ∀ x < w.next, ¬ w.nullReceipt x

/-- The pass of `loc_check_receipts` begins a fetch for the request. -/
def World.Fetches (w : World) (start : Start) (r : ReqId) : Prop :=
  start ≠ .noRequest ∧ w.wantingReceipt = some r

/-- A fetch is begun for a transfer without a callback and with a null receipt. -/
def World.FetchesNowhere (w : World) : Act → Prop
  | .checkReceipts start =>
    ∃ r ∈ w.wantingReceipt, start ≠ .noRequest ∧ (w.heap r).processResponse = .transfer ∧ ¬ (w.heap r).HasPlace
  | _ => False

instance (w : World) (a : Act) : Decidable (w.FetchesNowhere a) :=
  match a with
  | .checkReceipts start =>
    inferInstanceAs (Decidable (∃ r ∈ w.wantingReceipt, start ≠ .noRequest ∧
      (w.heap r).processResponse = .transfer ∧ ¬ (w.heap r).HasPlace))
  | .call _ | .process | .enter | .error _ _ | .message _ _ | .curl _ | .done _ | .infoEnd | .checkMain
  | .exit => .isFalse id

namespace World

/-- Every request with this handler has a place. -/
def Placed (w : World) (k : ResponseHandler) : Prop :=
  ∀ x < w.next, (w.heap x).processResponse = k → (w.heap x).HasPlace

lemma nullReceipt_iff : w.nullReceipt x ↔ (w.heap x).processResponse = .receipt ∧ ¬ (w.heap x).HasPlace := by
  unfold nullReceipt Request.HasPlace
  rw [not_or, not_not, not_not]

/-! ### The requests that a step makes -/

lemma checkReceipts_made {start : Start} (hf : w.Fetches start r) :
    (w.checkReceipts start).next = w.next + 1 ∧
      ((w.checkReceipts start).heap w.next).fixed = (w.heap r).receiptFetch r := by
  obtain ⟨hs, hr⟩ := hf
  have hnext := w.makeFetch_heap_next r
  have h := w.checked start
  generalize w.checkReceipts start = v at h ⊢
  cases h with
  | nothing h => cases hr.symm.trans h
  | noRequest r' hr' h => exact absurd h hs
  | noHandle r' hr' =>
    obtain rfl := Option.some.inj (hr.symm.trans hr')
    have hgive : (((w.makeFetch r).giveUpReceipt r).heap w.next).fixed = ((w.makeFetch r).heap w.next).fixed :=
      modify_fixed (f := fun q => { q with needReceipt := false }) (fun _ => rfl) w.next
    exact ⟨rfl, hgive.trans (congrArg Request.fixed hnext)⟩
  | async r' accepted hr' =>
    obtain rfl := Option.some.inj (hr.symm.trans hr')
    exact ⟨rfl, congrArg Request.fixed hnext⟩
  | nested r' accepted hr' =>
    obtain rfl := Option.some.inj (hr.symm.trans hr')
    exact ⟨rfl, congrArg Request.fixed hnext⟩

lemma checkReceipts_next_eq {start : Start} (hf : ∀ r, ¬ w.Fetches start r) :
    (w.checkReceipts start).next = w.next := by
  have h := w.checked start
  generalize w.checkReceipts start = v at h ⊢
  cases h with
  | nothing => rfl
  | noRequest => rfl
  | noHandle r hr hs => exact absurd ⟨by simp [hs], hr⟩ (hf r)
  | async r accepted hr hs => exact absurd ⟨by simp [hs], hr⟩ (hf r)
  | nested r accepted hr hs => exact absurd ⟨by simp [hs], hr⟩ (hf r)

/-- **A new request is that of a call, or the fetch of a receipt.** -/
lemma step_made (h : w.step E a = some w') (hx : x < w'.next) : x < w.next ∨ x = w.next ∧
    ((∃ c, a = .call c ∧ w'.heap x = c.request) ∨
      ∃ start r, a = .checkReceipts start ∧ w.Fetches start r ∧
        (w'.heap x).fixed = (w.heap r).receiptFetch r) := by
  have hnew : ∀ {n : ℕ}, n = w.next + 1 → x < n → x < w.next ∨ x = w.next :=
    fun hn hlt => Nat.lt_succ_iff_lt_or_eq.mp (hlt.trans_eq hn)
  rcases step_next_eq h with hnext | ⟨c, rfl⟩ | ⟨start, rfl⟩
  · exact .inl (hnext ▸ hx)
  · simp only [World.step, Option.ite_none_right_eq_some, Option.some.injEq] at h
    obtain ⟨-, rfl⟩ := h
    by_cases hs : c.start = .noRequest
    · have hnext : (w.call c).next = w.next := by
        unfold World.call
        rw [hs]
      exact .inl (hnext ▸ hx)
    · obtain ⟨hmade, hnext⟩ := w.call_made hs
      refine (hnew hnext hx).imp_right fun heq => ⟨heq, .inl ⟨c, rfl, ?_⟩⟩
      rw [heq, hmade]
  · simp only [World.step, Option.ite_none_right_eq_some, Option.some.injEq] at h
    obtain ⟨-, rfl⟩ := h
    by_cases hf : ∃ r, w.Fetches start r
    · obtain ⟨r, hf⟩ := hf
      obtain ⟨hnext, hmade⟩ := checkReceipts_made hf
      refine (hnew hnext hx).imp_right fun heq => ⟨heq, .inr ⟨start, r, rfl, hf, ?_⟩⟩
      rw [heq, hmade]
    · have hnext := checkReceipts_next_eq (not_exists.mp hf)
      exact .inl (hnext ▸ hx)

/-! ### One step -/

lemma hasPlace_congr {q q' : Request} (h : q'.fixed = q.fixed) : q'.HasPlace ↔ q.HasPlace := by
  unfold Request.HasPlace
  rw [Request.fixed_callback h, Request.fixed_returnPtr h]

lemma nullReceipt_congr (h : (w'.heap x).fixed = (w.heap x).fixed) : w'.nullReceipt x ↔ w.nullReceipt x := by
  rw [nullReceipt_iff, nullReceipt_iff, Request.fixed_processResponse h, hasPlace_congr h]

lemma hasPlace_fetch {q q' : Request} (h : q'.fixed = q.receiptFetch r) : q'.HasPlace ↔ q.HasPlace :=
  hasPlace_congr (q := q.receiptFetch r) h

/-- A call that is checked has a place for what it asks for, unless it is a transfer. -/
lemma hasPlace_request (hc : c.Checked)
    (h : c.request.processResponse = .contractCall ∨ c.request.processResponse = .receipt) :
    c.request.HasPlace := by
  have hs : c.service.handler = .contractCall ∨ c.service.handler = .receipt := h
  unfold Call.Checked at hc
  cases hservice : c.service with
  | contractCall => rwa [hservice] at hc
  | receipt => rwa [hservice] at hc
  | _ =>
    rw [hservice] at hs
    rcases hs with hs | hs <;> cases hs

lemma Placed.step {k : ResponseHandler} (hp : w.Placed k) (hk : k ≠ .receipt)
    (hc : ∀ c, a = .call c → c.request.processResponse = k → c.request.HasPlace) (h : w.step E a = some w') :
    w'.Placed k := by
  intro x hx hhandler
  rcases step_made h hx with hlt | ⟨-, ⟨c, rfl, hmade⟩ | ⟨start, r, -, -, hmade⟩⟩
  · have hfixed := step_fixed h hlt
    rw [Request.fixed_processResponse hfixed] at hhandler
    exact (hasPlace_congr hfixed).mpr (hp x hlt hhandler)
  · rw [hmade] at hhandler ⊢
    exact hc c rfl hhandler
  · have hreceipt : (w'.heap x).processResponse = .receipt :=
      Request.fixed_processResponse (q := (w.heap r).receiptFetch r) hmade
    exact absurd (hhandler.symm.trans hreceipt) hk

lemma Placed.step_call (hp : w.Placed .contractCall) (hc : a.Checked) (h : w.step E a = some w') :
    w'.Placed .contractCall := by
  refine hp.step (by decide) (fun c hcall hhandler => ?_) h
  subst hcall
  exact hasPlace_request hc (.inl hhandler)

/-- **A step leaves a place for every receipt exactly if it begins no fetch without one.** -/
theorem Destined.step_iff (ho : w.Ok) (hp : w.Placed .contractCall) (hd : w.Destined) (hc : a.Checked)
    (h : w.step E a = some w') : w'.Destined ↔ ¬ w.FetchesNowhere a := by
  constructor
  · rintro hd' hnowhere
    cases a with
    | checkReceipts start =>
      obtain ⟨r, hr, hs, -, hplace⟩ := hnowhere
      have hf : w.Fetches start r := ⟨hs, hr⟩
      simp only [World.step, Option.ite_none_right_eq_some, Option.some.injEq] at h
      obtain ⟨-, rfl⟩ := h
      obtain ⟨hnext, hmade⟩ := checkReceipts_made hf
      refine hd'.notNull w.next (hnext ▸ Nat.lt_succ_self _) (nullReceipt_iff.mpr ⟨?_, ?_⟩)
      · exact Request.fixed_processResponse (q := (w.heap r).receiptFetch r) hmade
      · rwa [hasPlace_fetch hmade]
    | _ => exact hnowhere
  · intro hsomewhere
    -- of the new requests, a fetch has the place of a transaction
    have hnew : ∀ x < w'.next, w.next ≤ x →
        (w'.heap x).parent = none ∧ ¬ w'.nullReceipt x ∨ (w'.heap x).HasPlace := by
      intro x hx hge
      rcases step_made h hx with hlt | ⟨-, ⟨c, rfl, hmade⟩ | ⟨start, r, rfl, hf, hmade⟩⟩
      · exact absurd hlt (not_lt.mpr hge)
      · refine .inl ⟨by rw [hmade]; rfl, fun hnull => ?_⟩
        rw [nullReceipt_iff, hmade] at hnull
        exact hnull.2 (hasPlace_request hc (.inr hnull.1))
      · refine .inr ((hasPlace_fetch hmade).mpr ?_)
        obtain ⟨hmem, hwants⟩ := wantingReceipt_eq_some hf.2
        rcases ho.need r (wantsReceipt_iff.mp hwants).2.2.1 with htransfer | hcall
        · exact not_not.mp fun hplace => hsomewhere ⟨r, hf.2, hf.1, htransfer, hplace⟩
        · exact hp r (ho.requests_lt r hmem) hcall
    refine ⟨fun x hx hparent => ?_, fun x hx => ?_⟩
    · rcases lt_or_ge x w.next with hlt | hge
      · have hfixed := step_fixed h hlt
        rw [Request.fixed_parent hfixed] at hparent
        exact (hasPlace_congr hfixed).mpr (hd.fetched x hlt hparent)
      · exact (hnew x hx hge).resolve_left fun hcall => hparent hcall.1
    · rcases lt_or_ge x w.next with hlt | hge
      · rw [nullReceipt_congr (step_fixed h hlt)]
        exact hd.notNull x hlt
      · rcases hnew x hx hge with hcall | hplace
        · exact hcall.2
        · exact fun hnull => (nullReceipt_iff.mp hnull).2 hplace

end World

/-! ### All runs -/

variable {receipts : ℕ → TransactionReceipt} {accounts : ℕ → AccountState}

lemma World.placed_start (k : ResponseHandler) : (World.start receipts accounts).Placed k :=
  fun x hx => absurd hx (Nat.not_lt_zero x)

lemma World.destined_start : (World.start receipts accounts).Destined :=
  ⟨fun x hx => absurd hx (Nat.not_lt_zero x), fun x hx => absurd hx (Nat.not_lt_zero x)⟩

/-- **Every request for a receipt has somewhere to put it exactly in the runs in which no fetch is begun for a
transfer without a callback and with a null receipt.** -/
theorem destined_iff {as : List Act} (has : ∀ a ∈ as, a.Checked)
    (h : run (World.step E) (.start receipts accounts) as = some w) :
    Always (World.step E) World.Destined (.start receipts accounts) as ↔
      Every (World.step E) (fun w a => ¬ w.FetchesNowhere a) (.start receipts accounts) as := by
  refine always_iff_every_under (J := fun w => w.Ok ∧ w.Placed .contractCall) (K := fun _ a => a.Checked)
    (fun _ _ _ hw hc h => ⟨hw.1.step h, hw.2.step_call hc h⟩)
    (fun _ _ _ hw hc hd h => World.Destined.step_iff hw.1 hw.2 hd hc h)
    ⟨World.Ok.start _ _, World.placed_start _⟩ World.destined_start (every_of_forall has) h

/-- In particular in those in which no transfer is made without a callback and with a null receipt. -/
theorem always_destined {as : List Act} (has : ∀ a ∈ as, a.Checked ∧ ∀ c, a = .call c → c.request.HasPlace) :
    Always (World.step E) World.Destined (.start receipts accounts) as := by
  have hstep : ∀ (w : World) (a : Act) (w' : World),
      (w.Ok ∧ w.Placed .contractCall ∧ w.Placed .transfer) ∧ w.Destined →
      (a.Checked ∧ ∀ c, a = .call c → c.request.HasPlace) → w.step E a = some w' →
      (w'.Ok ∧ w'.Placed .contractCall ∧ w'.Placed .transfer) ∧ w'.Destined := by
    rintro w a w' ⟨⟨ho, hcall, htransfer⟩, hd⟩ ⟨hc, hplace⟩ h
    have htransfer' := htransfer.step (by decide) (fun c hac _ => hplace c hac) h
    refine ⟨⟨ho.step h, hcall.step_call hc h, htransfer'⟩, (hd.step_iff ho hcall hc h).mpr ?_⟩
    cases a with
    | checkReceipts start =>
      rintro ⟨r, hr, -, hhandler, hnowhere⟩
      exact hnowhere (htransfer r (ho.requests_lt r (World.wantingReceipt_eq_some hr).1) hhandler)
    | _ => exact id
  exact always_of_invariant hstep (fun _ hw => hw.2)
    ⟨⟨World.Ok.start _ _, World.placed_start _, World.placed_start _⟩, World.destined_start⟩ (every_of_forall has)

/-- `aergo_transfer` with a null receipt, and what the node answers. -/
def nullTransfer (answer : Bytes) : List Act :=
  [.call { syncTransfer with returnPtr := none }, .enter, .message 0 answer, .curl true, .infoEnd,
    .checkReceipts (.sent true)]

theorem destined_nullTransfer_rejected :
    Always (World.step sampleEnv) World.Destined newInstance (nullTransfer rejectedAnswer) :=
  (destined_iff (by simp [nullTransfer, Act.Checked, Call.Checked, syncTransfer]) rfl).mpr (by decide)

/-- **A transfer with a null receipt is accepted, and its receipt is asked for without a place to put it.** -/
theorem null_receipt_fetched :
    ∃ w, run (World.step sampleEnv) newInstance (nullTransfer acceptedAnswer) = some w ∧
      (w.heap 1).parent = some 0 ∧ w.nullReceipt 1 ∧ ¬ w.Destined :=
  ⟨_, rfl, rfl, by decide, fun h => absurd (h.notNull 1 (by decide)) (by decide)⟩

end Libaergo
