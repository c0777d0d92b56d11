import Libaergo.Socket.Settlement
import Libaergo.Socket.Transaction

/-!
# The result of a synchronous transaction

What the caller of `aergo_transfer_bignum`, `aergo_multicall` and `aergo_call_smart_contract_json` sees:
the value that is returned, and the receipt.  The value is the success of the commit, the receipt is
written by the answers to other requests; the two agree if the last message was a rejection with a text
or the receipt that was asked for.
-/

namespace Libaergo

open Lib

/-! ### The worlds of an instance -/

/-- What the acts lead to; receipts and accounts are the memory of the program. -/
inductive World.Reachable (E : Env) : World → Prop
  | start (receipts : ℕ → TransactionReceipt) (accounts : ℕ → AccountState) :
    Reachable E (.start receipts accounts)
  | step {w w' : World} {a : Act} (hw : Reachable E w) (h : w.step E a = some w') : Reachable E w'
  | memory {w : World} (hw : Reachable E w) (receipts : ℕ → TransactionReceipt)
      (accounts : ℕ → AccountState) :
    Reachable E { w with receipts := receipts, accounts := accounts }

/-- No request of the instance has the receipt at `ptr`, and nothing is written to it. -/
structure World.Untouched (ptr : ℕ) (w : World) : Prop where
  ok : w.Ok
  unshared : ∀ x, w.Listed x → (w.heap x).returnPtr ≠ some ptr
  initial : w.receipts ptr = .initial

variable {E : Env} {w w' t : World} {c : Call} {as : List Act} {ptr : ℕ}

namespace World

lemma Reachable.ok (hw : w.Reachable E) : w.Ok := by
  induction hw with
  | start receipts accounts => exact .start receipts accounts
  | step _ h ih => exact ih.step h
  | memory _ receipts accounts ih => exact ih.moved rfl rfl

lemma Reachable.idle (hw : w.Reachable E) : w.Idle := by
  induction hw with
  | start receipts accounts => exact fun _ => rfl
  | step _ h ih => exact ih.step h
  | memory _ receipts accounts ih => exact ih

lemma Untouched.step {a : Act} (hw : w.Untouched ptr) (ha : a.Spares ptr) (h : w.step E a = some w') :
    w'.Untouched ptr := by
  refine ⟨hw.ok.step h, fun x hx => ?_, ?_⟩
  · rcases step_listed h hx with hx | ⟨-, ⟨c, rfl, hx⟩ | ⟨p, hp, hx⟩⟩
    · rw [Request.fixed_returnPtr (step_fixed h (hw.ok.listed_lt hx))]
      exact hw.unshared x hx
    · rw [hx]
      exact ha
    · have hx' : (w'.heap x).fixed = ((w.heap p).receiptFetch p).fixed := hx
      rw [Request.fixed_returnPtr hx']
      exact hw.unshared p (.inl (wantingReceipt_eq_some hp).1)
  · rw [step_receipts h]
    · exact hw.initial
    · rintro x m rfl
      exact hw.unshared x (.inr (step_message h).2.1)

/-! ### Waiting -/

lemma await_run (h : w.await E as = some t) :
    run (World.step E) w as = some t ∧ Every (World.step E) World.Busy w as ∧ t.running = none := by
  induction as generalizing w with
  | nil =>
    unfold World.await at h
    split at h
    · cases h
    · next hn =>
      obtain rfl := Option.some.inj h
      exact ⟨rfl, trivial, by simpa using hn⟩
  | cons a as ih =>
    unfold World.await at h
    split at h
    · next hb =>
      obtain ⟨w', hs, h⟩ := Option.bind_eq_some_iff.mp h
      obtain ⟨hrun, hbusy, hend⟩ := ih h
      refine ⟨run_cons_eq_some.mpr ⟨w', hs, hrun⟩, ⟨hb, fun u hu => ?_⟩, hend⟩
      obtain rfl := Option.some.inj (hs.symm.trans hu)
      exact hbusy
    · cases h

/-- A synchronous call is an act, and what happens until it returns. -/
lemma syncCall_run (h : w.syncCall E c as = some t) : run (World.step E) w (.call c :: as) = some t := by
  unfold World.syncCall at h
  split at h
  · split at h
    · next hpc =>
      obtain ⟨hpc, rfl⟩ := hpc
      obtain rfl := Option.some.inj h
      exact run_cons_eq_some.mpr ⟨w.call c, by simp [World.step, hpc], rfl⟩
    · cases h
  · next hn =>
    have hpc : w.pc = none := by simpa [World.pc] using hn
    exact run_cons_eq_some.mpr ⟨w.call c, by simp [World.step, hpc], (await_run h).1⟩

lemma call_sync {accepted : Bool} (hcb : c.callback = none) (hn : w.running = none)
    (hs : c.start = .sent accepted) : w.call c =
      { (w.newRequest c.request).addHandle w.next accepted with
        running := some ⟨some w.next, false, .waitAgain⟩ } := by
  have hn' : ((w.newRequest c.request).addHandle w.next accepted).running = none := hn
  unfold World.call
  rw [hs]
  simp [hcb, hn']

/-- A synchronous call returns false at once, or it is sent and waits. -/
lemma syncCall_cases (hcb : c.callback = none) (h : w.syncCall E c as = some t) :
    as = [] ∧ t = w.call c ∧ t.returned = some false ∨
      w.running = none ∧ (∃ accepted, c.start = .sent accepted) ∧ (w.call c).await E as = some t := by
  unfold World.syncCall at h
  split at h
  · next hb =>
    split at h
    · next hpc =>
      obtain rfl := Option.some.inj h
      refine .inl ⟨hpc.2, rfl, ?_⟩
      have hb' : ∀ accepted, ((w.newRequest c.request).addHandle w.next accepted).running.isSome = true :=
        fun _ => hb
      unfold World.call
      split
      · rfl
      · rfl
      · simp [hcb, hb']
    · cases h
  · next hb =>
    have hn : w.running = none := by simpa using hb
    cases hs : c.start with
    | sent accepted => exact .inr ⟨hn, ⟨accepted, rfl⟩, h⟩
    | _ =>
      left
      have hcall : (w.call c).running = none ∧ (w.call c).returned = some false := by
        unfold World.call
        rw [hs]
        exact ⟨hn, rfl⟩
      cases as with
      | nil =>
        obtain ⟨hrun, -⟩ := await_run h
        obtain rfl := Option.some.inj hrun
        exact ⟨rfl, rfl, hcall.2⟩
      | cons a as =>
        unfold World.await at h
        simp [hcall.1] at h

section Sent

variable {accepted : Bool} {hash : Hash} (hcb : c.callback = none) (hn : w.running = none)
  (hs : c.start = .sent accepted) (ho : w.Ok)

include hcb hn hs

lemma call_heap_next : (w.call c).heap w.next = c.request := by
  rw [call_sync hcb hn hs]
  exact newRequest_heap_next ..

/-- The call that the program made is at the bottom of the stack. -/
lemma Outermost.of_call (hi : w.Idle) : (w.call c).Outermost w.next := by
  rw [call_sync hcb hn hs]
  refine ⟨fun f hf _ => ?_, fun c' hc' => ?_, fun f hf _ => ?_⟩
  · obtain rfl := Option.some.inj hf
    rfl
  · have hc'' : w.callers.getLast? = some c' := hc'
    rw [hi hn] at hc''
    cases hc''
  · obtain rfl := Option.some.inj hf
    rfl

include ho

lemma call_childless (x : ReqId) : ((w.call c).heap x).parent ≠ some w.next := by
  intro hx
  by_cases hxn : x = w.next
  · subst hxn
    rw [call_heap_next hcb hn hs] at hx
    cases hx
  · rw [call_heap_ne _ _ hxn] at hx
    exact (ho.child x _ hx).1.false

lemma Commits.of_call (hi : w.Idle) (hc : c.request.IsCommit ptr hash) :
    (w.call c).Commits w.next ptr hash := by
  have hnext := call_heap_next hcb hn hs
  have hchildless := call_childless hcb hn hs ho
  refine ⟨ho.call c, ?_, ?_, fun x hx => absurd hx (hchildless x), .of_call hcb hn hs hi⟩
  · rw [call_sync hcb hn hs]
    exact Nat.lt_succ_self _
  · rwa [hnext]

lemma Tracked.of_call (hw : w.Untouched ptr) : (w.call c).Tracked w.next ptr := by
  refine ⟨fun x hx hptr => ?_, fun _ => ?_, fun x hx => absurd hx (call_childless hcb hn hs ho x)⟩
  · have hreq : (w.call c).requests = w.requests ++ [w.next] := by rw [call_sync hcb hn hs]; rfl
    have hatt : (w.call c).attached = w.attached ∨ (w.call c).attached = w.next :: w.attached := by
      rw [call_sync hcb hn hs]
      exact addHandle_attached ..
    rcases hx.of_new hreq hatt with hx | rfl
    · have hne : x ≠ w.next := by
        rintro rfl
        rcases hx with hx | hx
        · exact (ho.requests_lt _ hx).false
        · exact (ho.attached_lt _ hx).false
      rw [call_heap_ne _ _ hne] at hptr
      exact absurd hptr (hw.unshared x hx)
    · unfold callOf
      rw [call_heap_next hcb hn hs]
      rfl
  · rw [call_receipts]
    exact hw.initial

end Sent

end World

/-! ### Before the transaction -/

section Invariant

variable {Inv : World → Prop} {P : Act → Prop}
  (hmem : ∀ w accounts, Inv w → Inv { w with accounts := accounts })
  (hstep : ∀ w a w', Inv w → P a → w.step E a = some w' → Inv w')

include hstep

lemma syncCall_invariant (hw : Inv w) (hc : P (.call c)) (has : ∀ a ∈ as, P a)
    (h : w.syncCall E c as = some t) : Inv t :=
  run_invariant hstep hw (every_of_forall (List.forall_mem_cons.mpr ⟨hc, has⟩)) (World.syncCall_run h)

lemma checkBlockchainIdHash_invariant {wait : Wait} {known : Bool} (hw : Inv w)
    (hc : P (.call (blockchainStatusCall wait.start))) (has : ∀ a ∈ wait.acts, P a)
    (h : checkBlockchainIdHash E w wait = some (known, t)) : Inv t := by
  unfold checkBlockchainIdHash at h
  split at h
  · obtain ⟨w', hs, h⟩ := Option.bind_eq_some_iff.mp h
    obtain ⟨-, rfl⟩ := Prod.mk.inj (Option.some.inj h)
    exact syncCall_invariant hstep hw hc has hs
  · obtain ⟨-, rfl⟩ := Prod.mk.inj (Option.some.inj h)
    exact hw

include hmem

lemma accountKey_invariant {K : PublicKeys} {a : ℕ} {account : Account} {wait : Wait}
    {key : Except (Option String) Address} (hw : Inv w)
    (hc : P (.call (accountStateCall a wait.start))) (has : ∀ a ∈ wait.acts, P a)
    (h : accountKey E K w a account wait = some (key, t)) : Inv t := by
  unfold accountKey at h
  split at h
  · obtain ⟨-, rfl⟩ := Prod.mk.inj (Option.some.inj h)
    exact hw
  · unfold aergoGetAccountState at h
    split at h
    · obtain ⟨-, rfl⟩ := Prod.mk.inj (Option.some.inj h)
      exact hw
    · obtain ⟨w', hs, h⟩ := Option.bind_eq_some_iff.mp h
      obtain ⟨-, rfl⟩ := Prod.mk.inj (Option.some.inj h)
      exact syncCall_invariant hstep (hmem _ _ hw) hc has hs

end Invariant

/-! ### The result -/

/-- The value and the receipt agree: true with a `Receipt` for the hash of the transaction, false with a
text that was written. -/
def Returned.Sound (ptr : ℕ) (ret : Returned) : Prop :=
  (ret.value = true →
    ∃ hash receipt, ret.txnHash = some hash ∧ ret.world.receipts ptr = .decoded hash receipt) ∧
  (ret.value = false → ∃ text, ret.world.receipts ptr = .failed (some text))

/-- The last message for the transaction `r` or for the receipt is a rejection with a detail, or it is the
receipt, and libcurl does not fail. -/
def World.Obtains (E : Env) (r : ReqId) (ptr : ℕ) (w : World) (as : List Act) : Prop :=
  Lastly (World.step E) (World.Rejects E r) (World.Answers r ptr) w as ∨
    Lastly (World.step E) (World.Brings E r) (World.Answers r ptr) w as ∧
      Every (World.step E) World.Uninterrupted w as

instance (r : ReqId) (w : World) (as : List Act) : Decidable (w.Obtains E r ptr as) := by
  unfold World.Obtains
  infer_instance

section Commit

variable {hash : Hash} (hi : w.Idle) (hcb : c.callback = none) (hc : c.request.IsCommit ptr hash)
  (h : w.syncCall E c as = some t)

include hi hcb hc h

lemma sound_of_obtains (hE : ∀ q, E.stale q = q) (ho : w.Ok) (ha : (w.call c).Obtains E w.next ptr as) :
    (⟨t.returned.getD false, some hash, t⟩ : Returned).Sound ptr := by
  rcases World.syncCall_cases hcb h with ⟨rfl, -, -⟩ | ⟨hn, ⟨accepted, hs⟩, hwait⟩
  · rcases ha with ha | ⟨ha, -⟩ <;> exact ha.elim
  · obtain ⟨hrun, hb, hend⟩ := World.await_run hwait
    have hcommits := World.Commits.of_call hcb hn hs ho hi hc
    rcases ha with ha | ⟨ha, hcut⟩
    · obtain ⟨text, hset⟩ := settled_of_rejects hE hcommits hb hrun ha
      refine ⟨fun hv => ?_, fun _ => ⟨text, hset.receipt⟩⟩
      simp [hset.ended hend] at hv
    · obtain ⟨receipt, hset⟩ := settled_of_brings hE hcommits hb hrun ha hcut
      refine ⟨fun _ => ⟨hash, receipt, rfl, hset.receipt⟩, fun hv => ?_⟩
      simp [hset.ended hend] at hv

/-- The other way round, if the receipt is its own and the transaction is answered once. -/
lemma obtains_of_sound (hw : w.Untouched ptr) (hspare : ∀ a ∈ as, a.Spares ptr)
    (honce : Every (World.step E) (World.AnswersOnce w.next) (w.call c) as)
    (hsound : (⟨t.returned.getD false, some hash, t⟩ : Returned).Sound ptr) :
    (w.call c).Obtains E w.next ptr as := by
  obtain ⟨htrue, hfalse⟩ := hsound
  rcases World.syncCall_cases hcb h with ⟨-, rfl, hret⟩ | ⟨hn, ⟨accepted, hs⟩, hwait⟩
  · obtain ⟨text, htext⟩ := hfalse (by simp [hret])
    have hinit : (w.call c).receipts ptr = .initial := by
      rw [World.call_receipts]
      exact hw.initial
    exact nomatch hinit.symm.trans htext
  · obtain ⟨hrun, hb, -⟩ := World.await_run hwait
    have hcommits := World.Commits.of_call hcb hn hs hw.ok hi hc
    have htracked := World.Tracked.of_call hcb hn hs hw.ok hw
    have hp : ((w.call c).heap w.next).processed = false := by
      rw [World.call_heap_next hcb hn hs]
      rfl
    have hspares : Every (World.step E) (fun _ => Act.Spares ptr) (w.call c) as := every_of_forall hspare
    cases hv : t.returned.getD false with
    | true =>
      obtain ⟨hash', receipt, -, hreceipt⟩ := htrue hv
      have ht : t.returned = some true := by
        cases hr : t.returned with
        | none =>
          rw [hr] at hv
          cases hv
        | some b =>
          rw [hr] at hv
          exact congrArg some hv
      exact .inr ⟨brings_of_decoded hcommits htracked hp hb honce hspares hrun hreceipt,
        uninterrupted_of_returned hcommits.outermost hb hrun ht⟩
    | false =>
      obtain ⟨text, htext⟩ := hfalse hv
      exact .inl (rejects_of_failed hcommits htracked hp hb honce hspares hrun htext)

end Commit

/-! ### The work before the commit -/

namespace EntryPoint

variable {S : Setup} {e : EntryPoint} {a : ℕ} {account : Account} {waits : Waits} {p : Prepared}

def commit (e : EntryPoint) (ptr : ℕ) (encoded : Encoded) (waits : Waits) : Call :=
  commitCall e.service e.service_eq ptr encoded.txnHash waits.commit.start

lemma commit_isCommit (e : EntryPoint) (ptr : ℕ) (encoded : Encoded) (waits : Waits) :
    (e.commit ptr encoded waits).request.IsCommit ptr encoded.txnHash := by
  have hservice : (e.commit ptr encoded waits).request.processError = e.service.errorHandler ∧
      (e.commit ptr encoded waits).request.processResponse = e.service.handler := ⟨rfl, rfl⟩
  refine ⟨rfl, rfl, ?_, ?_, rfl, rfl⟩
  · rw [hservice.1]
    rcases e.service_eq with h | h <;> rw [h] <;> rfl
  · rw [hservice.2]
    rcases e.service_eq with h | h <;> rw [h]
    · exact .inl rfl
    · exact .inr rfl

lemma encode_error (he : e.Accepts) {sha256 : Bytes → Hash} {D : Devices} {stack : ℕ → UInt8}
    {chain : Hash} {psize : ℕ} {encoding : Encoding} {error : Option String}
    (h : e.encode.run sha256 D stack chain psize account = some encoding)
    (herr : encoding.result = .error error) : ∃ text, error = some text := by
  have hr : ¬ e.encode.Refused := by
    cases e with
    | transferBignum toAccount amount =>
      have hpos : 0 < amount.length := he
      exact fun hr : amount.length < 1 => by omega
    | multicall payload => exact id
    | callSmartContract contractAddress function args => exact id
  rw [EncodeCall.run_eq, if_neg hr, signAndEncode] at h
  obtain ⟨⟨handed, result⟩, -, h⟩ := Option.bind_eq_some_iff.mp h
  cases result with
  | error text =>
    obtain rfl := Option.some.inj h
    obtain rfl := Except.error.inj herr
    exact ⟨text, rfl⟩
  | ok sign =>
    obtain ⟨encoded, -, h⟩ := Option.bind_eq_some_iff.mp h
    obtain rfl := Option.some.inj h
    cases encoded with
    | error text => exact ⟨text, (Except.error.inj herr).symm⟩
    | ok enc => cases herr

/-- Why there is no key: it cannot be had, and the text says so, or the account state did not come. -/
lemma accountKey_error {K : PublicKeys} {wait : Wait} {error : Option String}
    (h : accountKey E K w a account wait = some (.error error, w')) :
    (w.accounts a).isUpdated = false ∧
      ((∃ text, publicKey K account = .error text ∧ error = some text) ∨
        (∃ pubkey, publicKey K account = .ok pubkey) ∧ error = none) := by
  unfold accountKey at h
  split at h
  · cases h
  · next hu =>
    refine ⟨by simpa using hu, ?_⟩
    unfold aergoGetAccountState at h
    split at h
    · next text hk =>
      obtain ⟨herr, -⟩ := Prod.mk.inj (Option.some.inj h)
      exact .inl ⟨text, hk, (Except.error.inj herr).symm⟩
    · next pubkey hk =>
      obtain ⟨w₁, -, h⟩ := Option.bind_eq_some_iff.mp h
      obtain ⟨herr, -⟩ := Prod.mk.inj (Option.some.inj h)
      split at herr
      · cases herr
      · exact .inr ⟨⟨pubkey, hk⟩, (Except.error.inj herr).symm⟩

lemma accountKey_of_error {K : PublicKeys} {wait : Wait} {text : String}
    (hu : (w.accounts a).isUpdated = false) (hk : publicKey K account = .error text) :
    accountKey E K w a account wait = some (.error (some text), w) := by
  simp [accountKey, aergoGetAccountState, hu, hk]

/-- **What the work before the commit comes to.** -/
lemma prepare_cases (he : e.Accepts) (h : e.prepare S w a account waits = some p) :
    (∃ w₁, checkBlockchainIdHash S.env w waits.status = some (false, w₁) ∧ p = .stopped w₁) ∨
      ∃ w₁, checkBlockchainIdHash S.env w waits.status = some (true, w₁) ∧
        ((∃ error w₂, accountKey S.env S.publicKeys w₁ a account waits.account =
            some (.error error, w₂) ∧ p = .failed error w₂) ∨
          ∃ pubkey w₂, accountKey S.env S.publicKeys w₁ a account waits.account =
              some (.ok pubkey, w₂) ∧
            (e.mallocs.all S.env.malloc = false ∧ p = .stopped w₂ ∨
              e.mallocs.all S.env.malloc = true ∧ ∃ accounts,
                ((∃ text, p = .failed (some text) { w₂ with accounts := accounts }) ∨
                  ∃ encoded, p = .built encoded { w₂ with accounts := accounts }))) := by
  unfold prepare at h
  rw [if_neg (not_not.mpr he)] at h
  obtain ⟨⟨known, w₁⟩, hcheck, h⟩ := Option.bind_eq_some_iff.mp h
  cases known with
  | false => exact .inl ⟨w₁, hcheck, (Option.some.inj h).symm⟩
  | true =>
    refine .inr ⟨w₁, hcheck, ?_⟩
    obtain ⟨⟨key, w₂⟩, hkey, h⟩ := Option.bind_eq_some_iff.mp h
    cases key with
    | error error => exact .inl ⟨error, w₂, hkey, (Option.some.inj h).symm⟩
    | ok pubkey =>
      refine .inr ⟨pubkey, w₂, hkey, ?_⟩
      cases hm : e.mallocs.all S.env.malloc with
      | false =>
        refine .inl ⟨rfl, ?_⟩
        dsimp only at h
        rw [if_pos hm] at h
        exact (Option.some.inj h).symm
      | true =>
        refine .inr ⟨rfl, ?_⟩
        dsimp only at h
        rw [if_neg (by simp [hm])] at h
        obtain ⟨encoding, henc, h⟩ := Option.bind_eq_some_iff.mp h
        refine ⟨Function.update w₂.accounts a ⟨(w₂.accounts a).isUpdated, encoding.account.nonce⟩, ?_⟩
        cases hres : encoding.result with
        | error error =>
          obtain ⟨text, rfl⟩ := encode_error he henc hres
          rw [hres] at h
          exact .inl ⟨text, (Option.some.inj h).symm⟩
        | ok encoded =>
          rw [hres] at h
          exact .inr ⟨encoded, (Option.some.inj h).symm⟩

/-- What leads to a sound result: the chain id is known, or the node tells it; the public key cannot be had,
or the account state is known or the node tells it and the buffers are allocated; and where the
transaction is built, its rejection or its receipt is obtained. -/
def Settles (S : Setup) (e : EntryPoint) (w : World) (ptr a : ℕ) (account : Account) (waits : Waits) :
    Prop :=
  ∃ w₁, checkBlockchainIdHash S.env (w.handOver ptr) waits.status = some (true, w₁) ∧
    ((w₁.accounts a).isUpdated = false ∧ (∃ text, publicKey S.publicKeys account = .error text) ∨
      ∃ pubkey w₂, accountKey S.env S.publicKeys w₁ a account waits.account = some (.ok pubkey, w₂) ∧
        e.mallocs.all S.env.malloc = true ∧
          ∀ encoded w₃, e.prepare S (w.handOver ptr) a account waits = some (.built encoded w₃) →
            (w₃.call (e.commit ptr encoded waits)).Obtains S.env w₃.next ptr waits.commit.acts)

/-- No other request has the receipt, and a message for the transaction comes only while it is
unanswered. -/
structure Alone (S : Setup) (e : EntryPoint) (w : World) (ptr a : ℕ) (account : Account)
    (waits : Waits) : Prop where
  unshared : ∀ x, w.Listed x → (w.heap x).returnPtr ≠ some ptr
  spares : ∀ act ∈ waits.status.acts ++ waits.account.acts ++ waits.commit.acts, act.Spares ptr
  once : ∀ encoded w₃, e.prepare S (w.handOver ptr) a account waits = some (.built encoded w₃) →
    Every (World.step S.env) (World.AnswersOnce w₃.next) (w₃.call (e.commit ptr encoded waits))
      waits.commit.acts

end EntryPoint

section Result

variable {S : Setup} {e : EntryPoint} {a : ℕ} {account : Account} {waits : Waits} {ret : Returned}

lemma World.handOver_reachable (hw : w.Reachable E) : (w.handOver ptr).Reachable E :=
  hw.memory _ w.accounts

lemma World.handOver_untouched (ho : w.Ok) (hw : ∀ x, w.Listed x → (w.heap x).returnPtr ≠ some ptr) :
    (w.handOver ptr).Untouched ptr :=
  ⟨ho.moved rfl rfl, hw, Function.update_self ..⟩

/-- The world that the work before the commit leaves. -/
def Prepared.world : Prepared → World
  | .stopped w => w
  | .failed _ w => w
  | .built _ w => w

/-- What every step keeps is kept by the work before the commit. -/
lemma EntryPoint.prepare_invariant {Inv : World → Prop} {P : Act → Prop} {p : Prepared}
    (hmem : ∀ w accounts, Inv w → Inv { w with accounts := accounts })
    (hstep : ∀ w a w', Inv w → P a → w.step S.env a = some w' → Inv w') (he : e.Accepts) (hw : Inv w)
    (hstatus : ∀ start, P (.call (blockchainStatusCall start)))
    (haccount : ∀ start, P (.call (accountStateCall a start)))
    (hacts : ∀ act ∈ waits.status.acts ++ waits.account.acts, P act)
    (h : e.prepare S w a account waits = some p) : Inv p.world := by
  have hs : ∀ act ∈ waits.status.acts, P act := fun act h => hacts act (List.mem_append_left _ h)
  have ha : ∀ act ∈ waits.account.acts, P act := fun act h => hacts act (List.mem_append_right _ h)
  rcases prepare_cases he h with ⟨w₁, hcheck, rfl⟩ | ⟨w₁, hcheck, h⟩
  · exact checkBlockchainIdHash_invariant hstep hw (hstatus _) hs hcheck
  have hw₁ := checkBlockchainIdHash_invariant hstep hw (hstatus _) hs hcheck
  rcases h with ⟨error, w₂, hkey, rfl⟩ | ⟨pubkey, w₂, hkey, h⟩
  · exact accountKey_invariant hmem hstep hw₁ (haccount _) ha hkey
  have hw₂ := accountKey_invariant hmem hstep hw₁ (haccount _) ha hkey
  rcases h with ⟨-, rfl⟩ | ⟨-, accounts, ⟨text, rfl⟩ | ⟨encoded, rfl⟩⟩
  · exact hw₂
  · exact hmem _ accounts hw₂
  · exact hmem _ accounts hw₂

lemma EntryPoint.prepare_reachable {p : Prepared} (he : e.Accepts) (hw : w.Reachable S.env)
    (h : e.prepare S w a account waits = some p) : p.world.Reachable S.env :=
  prepare_invariant (P := fun _ => True) (fun w accounts hw => hw.memory w.receipts accounts)
    (fun _ _ _ hw _ h => hw.step h) he hw (fun _ => trivial) (fun _ => trivial) (fun _ _ => trivial) h

lemma EntryPoint.prepare_untouched {p : Prepared} (he : e.Accepts) (hw : w.Untouched ptr)
    (hacts : ∀ act ∈ waits.status.acts ++ waits.account.acts, act.Spares ptr)
    (h : e.prepare S w a account waits = some p) : p.world.Untouched ptr :=
  prepare_invariant (P := Act.Spares ptr)
    (fun _ _ hw => ⟨hw.ok.moved rfl rfl, hw.unshared, hw.initial⟩)
    (fun _ _ _ hw ha h => hw.step ha h) he hw (fun _ => nofun) (fun _ => nofun) hacts h

end Result

/-! ### A sample transfer -/

/-- A software key, and a node that tells its chain id. -/
def sampleSetup : Setup where
  env := sampleEnv
  sha256 := sha256
  devices := softwareKey
  publicKeys := ⟨.error "no device", fun _ => none⟩
  stack := zeroStack

/-- A new instance, and accounts whose state is known. -/
def knownAccounts : World := .start (fun _ => .initial) (fun _ => ⟨true, 7⟩)

/-- The node tells its chain id, and the wait for the transaction goes as given. -/
def sampleWaits (commit : List Act) : Waits where
  status := ⟨.sent true, [.enter, .message 0 (statusAnswer sampleChain), .curl true, .done 0, .infoEnd,
    .checkReceipts .noRequest, .checkMain, .exit]⟩
  account := ⟨.noRequest, []⟩
  commit := ⟨.sent true, commit⟩

/-- `aergo_transfer_bignum` of an amount to the sample address. -/
def transferToSample : EntryPoint := .transferBignum sampleAddress [1]

/-- The transfer is accepted, and its receipt comes. -/
def receiptComes : Waits := sampleWaits
  [.enter, .message 1 acceptedAnswer, .curl true, .done 1, .infoEnd, .checkReceipts (.sent true),
   .enter, .message 2 receiptAnswer, .curl true, .done 2, .infoEnd, .checkReceipts .noRequest,
   .checkMain, .exit, .checkReceipts .noRequest, .checkMain, .exit]

def fetchFails : Waits := sampleWaits
  [.enter, .message 1 acceptedAnswer, .curl true, .done 1, .infoEnd, .checkReceipts (.sent true),
   .enter, .error 2 [0x78], .curl true, .done 2, .infoEnd, .checkReceipts .noRequest,
   .checkMain, .exit, .checkReceipts .noRequest, .checkMain, .exit]

end Libaergo
