import Libaergo.Socket.Amounts
import Libaergo.Socket.Soundness

/-!
# The chain id and the status answers (`aergo.c`)

Whether the chain id is known is told by the first byte of `blockchain_id_hash`, and the array is what the
status answers have copied over each other since the start (`run_chain`), so that a node whose hash begins with
zero is asked in vain, and one whose hash is short is taken for another chain (`usesChain_iff`).
-/

namespace Libaergo

open Lib Nanopb

/-! ### The answers of a run -/

/-- The status answer that an act decodes. -/
def World.answer (w : World) : Act → List Bytes
  | .message r m => if (w.heap r).processResponse = .blockchainStatus then [m] else []
  | _ => []

/-- The status answers that the acts decode in turn. -/
def World.answers (E : Env) : World → List Act → List Bytes
  | _, [] => []
  | w, a :: as =>
    match w.step E a with
    | none => w.answer a
    | some w' => w.answer a ++ World.answers E w' as

/-- The array after these answers. -/
def afterAnswers (chain : Hash) (answers : List Bytes) : Hash :=
  answers.foldl (fun chain m => (handleBlockchainStatusResponse chain m).1) chain

section Frames

variable {w w' : World} {E : Env} {r : ReqId} {kind : UseKind} {o : Outcome} {c : Call}

@[simp] lemma World.touch_chain : (w.touch kind r).blockchainIdHash = w.blockchainIdHash := by
  unfold World.touch
  split <;> rfl

@[simp] lemma World.setReceipt_chain (p : Option ℕ) (receipt : TransactionReceipt) :
    (w.setReceipt p receipt).blockchainIdHash = w.blockchainIdHash := by
  cases p <;> rfl

@[simp] lemma World.invoke_chain : (w.invoke r o).blockchainIdHash = w.blockchainIdHash := by
  unfold World.invoke
  split <;> rfl

@[simp] lemma World.modify_chain (f : Request → Request) : (w.modify r f).blockchainIdHash = w.blockchainIdHash :=
  rfl

@[simp] lemma settleParent_chain : (settleParent w r).blockchainIdHash = w.blockchainIdHash := by
  unfold settleParent
  split
  · rfl
  · exact World.touch_chain

lemma World.leave_chain : w.leave.blockchainIdHash = w.blockchainIdHash := by
  unfold World.leave
  split
  · rfl
  · split
    · rfl
    · split
      · rfl
      · exact World.touch_chain

lemma World.call_chain : (w.call c).blockchainIdHash = w.blockchainIdHash := by
  unfold World.call
  split
  · rfl
  · rfl
  · dsimp only
    split
    · rfl
    · split <;> rfl

lemma World.checkReceipts_chain (start : Start) :
    (w.checkReceipts start).blockchainIdHash = w.blockchainIdHash := by
  unfold World.checkReceipts
  split
  · rfl
  · dsimp only
    split
    · rfl
    · rfl
    · split <;> rfl

lemma World.checkMain_chain : (w.checkMain E).blockchainIdHash = w.blockchainIdHash := by
  unfold World.checkMain
  split
  · rfl
  · dsimp only
    split
    · exact World.touch_chain
    · split <;> exact World.touch_chain

lemma processRequestError_chain (text : Bytes) :
    (processRequestError w r text).blockchainIdHash = w.blockchainIdHash := by
  unfold processRequestError
  dsimp only
  split
  · simp
  · next h _ =>
    cases h with
    | query => simp [processError, handleQueryError]
    | failedReceipt =>
      simp only [processError, onFailedReceipt, World.modify_chain]
      split
      · simp
      · split
        · split <;> simp
        · simp

lemma processResponse_chain {m : Bytes} (h : (w.heap r).processResponse ≠ .blockchainStatus) :
    (processResponse E w r m).2.blockchainIdHash = w.blockchainIdHash := by
  have htransfer : (handleTransferResponse E w r m).2.blockchainIdHash = w.blockchainIdHash := by
    unfold handleTransferResponse
    split
    · rfl
    · split <;> simp
  unfold processResponse
  cases hp : (w.heap r).processResponse with
  | transfer => exact htransfer
  | contractCall => exact htransfer
  | query =>
    dsimp only
    unfold handleQueryResponse
    split
    · split <;> simp
    · rfl
  | queryStateVar =>
    dsimp only
    unfold handleQueryStateVarResponse
    split
    · split <;> simp
    · rfl
  | event =>
    dsimp only
    unfold handleEventResponse
    split <;> simp
  | receipt =>
    dsimp only
    unfold handleReceiptResponse
    split
    · rw [settleParent_chain]
      split <;> simp
    · rw [settleParent_chain]
      split <;> simp
  | block =>
    dsimp only
    unfold handleBlockResponse
    split <;> simp
  | blockchainStatus => exact absurd hp h
  | accountState =>
    dsimp only
    unfold handleAccountStateResponse
    split <;> rfl

lemma processMessage_chain (m : Bytes) :
    (processMessage E w r m).blockchainIdHash = afterAnswers w.blockchainIdHash (w.answer (.message r m)) := by
  have hchain : (w.received r).blockchainIdHash = w.blockchainIdHash := by simp [World.received]
  have hhandler : ((w.received r).heap r).processResponse = (w.heap r).processResponse := by simp
  rw [processMessage_eq, World.modify_chain, World.answer]
  split
  · next hstatus =>
    rw [processResponse, hhandler, hstatus]
    dsimp only
    rw [hchain]
    rfl
  · next hother =>
    rw [processResponse_chain (by rwa [hhandler]), hchain]
    rfl

/-- **What a step writes to the array.** -/
theorem step_chain {a : Act} (h : w.step E a = some w') :
    w'.blockchainIdHash = afterAnswers w.blockchainIdHash (w.answer a) := by
  cases a <;> simp only [World.step, Option.ite_none_right_eq_some, Option.some.injEq] at h <;>
    obtain ⟨-, rfl⟩ := h
  case call c => exact World.call_chain
  case process =>
    unfold World.process
    split <;> rfl
  case error r text => exact processRequestError_chain text
  case message r m => exact processMessage_chain m
  case curl ok =>
    split
    · rfl
    · exact World.leave_chain
  case checkReceipts start => exact World.checkReceipts_chain start
  case checkMain => exact World.checkMain_chain
  case exit => exact World.leave_chain
  all_goals rfl

/-- **What a run writes to it.** -/
theorem run_chain {as : List Act} (h : run (World.step E) w as = some w') :
    w'.blockchainIdHash = afterAnswers w.blockchainIdHash (w.answers E as) := by
  induction as generalizing w with
  | nil =>
    obtain rfl := Option.some.inj h
    rfl
  | cons a as ih =>
    obtain ⟨u, hu, h⟩ := run_cons_eq_some.mp h
    rw [World.answers, hu, ih h, step_chain hu]
    exact (List.foldl_append ..).symm

lemma afterAnswers_of_reports {chain : Hash} {answers : List Bytes} (h : ∀ m ∈ answers, Reports chain m) :
    afterAnswers chain answers = chain := by
  induction answers with
  | nil => rfl
  | cons m answers ih =>
    obtain ⟨hm, h⟩ := List.forall_mem_cons.mp h
    have hfirst : (handleBlockchainStatusResponse chain m).1 = chain := handleBlockchainStatusResponse_reports hm
    rw [afterAnswers, List.foldl_cons, hfirst]
    exact ih h

end Frames

/-! ### Whether the chain id is known -/

/-- The status answers that are decoded while `check_blockchain_id_hash` waits. -/
def statusAnswers (E : Env) (w : World) (wait : Wait) : List Bytes :=
  if w.blockchainIdHash.toList.head? = some 0 then
    w.answers E (.call (blockchainStatusCall wait.start) :: wait.acts)
  else []

/-- Those that are decoded while the account state is waited for. -/
def accountAnswers (E : Env) (w : World) (a : ℕ) (wait : Wait) : List Bytes :=
  if (w.accounts a).isUpdated then []
  else
    World.answers E { w with accounts := Function.update w.accounts a { w.accounts a with isUpdated := false } }
      (.call (accountStateCall a wait.start) :: wait.acts)

/-- The transaction has this chain id, and where its signature has the size of one, a reader finds it. -/
structure Carries (S : Setup) (chain : Hash) (encoded : Encoded) : Prop where
  txn : ∃ psize txn, encodeTransaction S.sha256 psize txn = some (.ok encoded) ∧ txn.chainIdHash = chain
  body : S.devices.Sized → ∃ tx body, decodeTxList (encoded.message.drop 5) = some [tx] ∧
    decodeTxBody tx.body = some body ∧ body.chainIdHash = chain.toList

/-- **The chain can be used from there on**, as long as the node reports it: no transaction call fails for lack
of a chain id, and what is built carries it. -/
structure ServesChain (S : Setup) (chain : Hash) (w : World) : Prop where
  array : w.blockchainIdHash = chain
  known : ∀ as w', run (World.step S.env) w as = some w' → (∀ m ∈ w.answers S.env as, Reports chain m) →
    ∀ wait, checkBlockchainIdHash S.env w' wait = some (true, w')
  carries : ∀ as w', run (World.step S.env) w as = some w' → (∀ m ∈ w.answers S.env as, Reports chain m) →
    ∀ (t : EntryPoint) a account waits encoded w'',
      (∀ m ∈ accountAnswers S.env w' a waits.account, Reports chain m) →
      t.prepare S w' a account waits = some (.built encoded w'') → Carries S chain encoded

/-- The message has this hash: it is the last value of `best_chain_id_hash` in it. -/
def HasHash (m : Bytes) (chain : Hash) : Prop := (reportedHashes m).getLast? = some chain.toList

/-- **What an answer to a process without a chain id comes to**: its hash is the chain id, and without one, of
32 bytes, no transaction is built. -/
structure UsesChain (S : Setup) (w : World) (wait : Wait) (m : Bytes) (known : Bool) (w' : World) : Prop where
  served : ∀ chain, HasHash m chain → known = true ∧ ServesChain S chain w'
  refused : (∀ chain, ¬ HasHash m chain) → known = false ∧
    ∀ (t : EntryPoint) a account waits, t.Accepts → waits.status = wait →
      t.prepare S w a account waits = some (.stopped w')

/-- The values that `read_blob` copies, over the zeros of the start. -/
def copiedValues (m : Bytes) : List Bytes := List.replicate 32 0 :: (reportedHashes m).takeWhile blobFits

/-- **The condition** on the answer: a hash of 32 bytes does not begin with zero, and no value that is too long
is in front of it; and what is copied where there is none begins with zero. -/
structure TellsChain (m : Bytes) : Prop where
  nonzero : ∀ chain, HasHash m chain → chain.toList.getD 0 0 ≠ 0 ∧
    ∀ i < 32, Latest (copiedValues m) i (chain.toList.getD i 0)
  zero : (∀ chain, ¬ HasHash m chain) → Latest (copiedValues m) 0 0

section Check

variable {S : Setup} {E : Env} {w w' : World} {wait : Wait} {known : Bool} {m : Bytes} {chain : Hash}

lemma head?_hash (chain : Hash) : chain.toList.head? = some (chain.toList.getD 0 0) := by
  have hpos : 0 < chain.toList.length := by simp
  rw [List.head?_eq_getElem?, List.getElem?_eq_getElem hpos, List.getD_eq_getElem _ _ hpos]

/-- The check passes just if the first byte is not zero after the answers. -/
lemma checkBlockchainIdHash_chain (h : checkBlockchainIdHash E w wait = some (known, w')) :
    w'.blockchainIdHash = afterAnswers w.blockchainIdHash (statusAnswers E w wait) ∧
      (known = true ↔ w'.blockchainIdHash.toList.getD 0 0 ≠ 0) := by
  unfold checkBlockchainIdHash at h
  unfold statusAnswers
  split at h
  · next hzero =>
    obtain ⟨u, hu, h⟩ := Option.bind_eq_some_iff.mp h
    obtain ⟨rfl, rfl⟩ := Prod.mk.inj (Option.some.inj h)
    rw [if_pos hzero]
    refine ⟨run_chain (World.syncCall_run hu), ?_⟩
    rw [head?_hash, decide_eq_true_iff, Ne, Option.some_inj]
  · next hzero =>
    obtain ⟨rfl, rfl⟩ := Prod.mk.inj (Option.some.inj h)
    rw [if_neg hzero]
    refine ⟨rfl, iff_of_true rfl fun h0 => hzero ?_⟩
    rw [head?_hash, h0]

lemma checkBlockchainIdHash_of_nonzero (h : w.blockchainIdHash.toList.getD 0 0 ≠ 0) (wait : Wait) :
    checkBlockchainIdHash E w wait = some (true, w) := by
  refine if_neg fun h0 => h ?_
  rw [head?_hash] at h0
  exact Option.some.inj h0

lemma accountKey_chain {P : PublicKeys} {a : ℕ} {account : Account} {key : Except (Option String) Address}
    (h : accountKey E P w a account wait = some (key, w')) (hkey : key.isOk) :
    w'.blockchainIdHash = afterAnswers w.blockchainIdHash (accountAnswers E w a wait) := by
  unfold accountKey at h
  unfold accountAnswers
  split at h
  · next hu =>
    obtain ⟨-, rfl⟩ := Prod.mk.inj (Option.some.inj h)
    rw [if_pos hu]
    rfl
  · next hu =>
    unfold aergoGetAccountState at h
    split at h
    · obtain ⟨rfl, -⟩ := Prod.mk.inj (Option.some.inj h)
      cases hkey
    · obtain ⟨u, hu', h⟩ := Option.bind_eq_some_iff.mp h
      obtain ⟨-, rfl⟩ := Prod.mk.inj (Option.some.inj h)
      rw [if_neg hu]
      exact run_chain (World.syncCall_run hu')

/-- What the encoder makes carries the chain id that it is given. -/
lemma carries_of_run {c : EncodeCall} {psize : ℕ} {account : Account} {e : Encoding} {encoded : Encoded}
    (h : c.run S.sha256 S.devices S.stack chain psize account = some e) (hok : e.result = .ok encoded) :
    Carries S chain encoded := by
  constructor
  · rw [EncodeCall.run_eq] at h
    split at h
    · obtain rfl := Option.some.inj h
      cases hok
    · obtain ⟨sign, -, henc⟩ := signAndEncode_ok h hok
      exact ⟨psize, _, henc, EncodeCall.txn_chainIdHash ..⟩
  · intro hD
    obtain ⟨sign, txn, tx, htxn, htx, hbody, -⟩ := EncodeCall.read hD h hok
    have hchain : txn.chainIdHash = chain := by
      rw [htxn]
      exact EncodeCall.txn_chainIdHash ..
    exact ⟨tx, txn.toBody, htx, hbody, congrArg Vector.toList hchain⟩

/-- **With an array that begins with another byte than zero, the chain can be used.** -/
lemma servesChain_of_nonzero (harray : w.blockchainIdHash = chain) (h0 : chain.toList.getD 0 0 ≠ 0) :
    ServesChain S chain w := by
  have hstays : ∀ as w', run (World.step S.env) w as = some w' →
      (∀ m ∈ w.answers S.env as, Reports chain m) → w'.blockchainIdHash = chain := by
    intro as w' hrun hreports
    rw [run_chain hrun, harray]
    exact afterAnswers_of_reports hreports
  have hknown : ∀ as w', run (World.step S.env) w as = some w' →
      (∀ m ∈ w.answers S.env as, Reports chain m) →
      ∀ wait, checkBlockchainIdHash S.env w' wait = some (true, w') := by
    intro as w' hrun hreports wait
    exact checkBlockchainIdHash_of_nonzero (by rwa [hstays as w' hrun hreports]) wait
  refine ⟨harray, hknown, fun as w' hrun hreports t a account waits encoded w'' haccount hbuilt => ?_⟩
  obtain ⟨w₁, pubkey, w₂, account', e, hcheck, hkey, henc, hok⟩ := prepare_built hbuilt
  obtain ⟨-, rfl⟩ := Prod.mk.inj (Option.some.inj (hcheck.symm.trans (hknown as w' hrun hreports waits.status)))
  have hchain := accountKey_chain hkey rfl
  rw [hstays as w₁ hrun hreports, afterAnswers_of_reports haccount] at hchain
  rw [hchain] at henc
  exact carries_of_run henc hok

lemma prepare_of_unknown {t : EntryPoint} {a : ℕ} {account : Account} {waits : Waits} (ht : t.Accepts)
    (h : checkBlockchainIdHash S.env w waits.status = some (false, w')) :
    t.prepare S w a account waits = some (.stopped w') := by
  unfold EntryPoint.prepare
  rw [if_neg (not_not.mpr ht), h]
  rfl

lemma first_answer (hfresh : w.blockchainIdHash = Vector.replicate 32 0) {i : ℕ} (hi : i < 32) (c : UInt8) :
    (afterAnswers w.blockchainIdHash [m]).toList.getD i 0 = c ↔ Latest (copiedValues m) i c := by
  have harray : (afterAnswers w.blockchainIdHash [m]).toList =
      ((reportedHashes m).takeWhile blobFits).foldl overlay w.blockchainIdHash.toList :=
    handleBlockchainStatusResponse_toList w.blockchainIdHash m
  rw [harray, hfresh, Vector.toList_replicate]
  exact foldl_overlay_getD (by rwa [List.length_replicate])

/-- An answer with one value tells the chain if it has 32 bytes and does not begin with zero, and tells that there
is none if it has more bytes, or fewer behind a zero. -/
lemma tellsChain_of_single {b : Bytes} (h : reportedHashes m = [b]) :
    TellsChain m ↔ if b.length = 32 then b.getD 0 0 ≠ 0 else b.length ≤ 32 → b.getD 0 0 = 0 := by
  have hhas : ∀ chain, HasHash m chain ↔ b = chain.toList := by
    intro chain
    rw [HasHash, h, List.getLast?_singleton, Option.some_inj]
  have hzeros : Latest [List.replicate 32 0] 0 0 := latest_singleton.mpr rfl
  have hcopied : b.length ≤ 32 → copiedValues m = [List.replicate 32 0] ++ [b] := by
    intro hle
    have hfits : blobFits b = true := decide_eq_true hle
    rw [copiedValues, h, List.takeWhile_cons_of_pos hfits]
    rfl
  split
  · next hlen =>
    have hlatest : ∀ i c, i < 32 → (Latest (copiedValues m) i c ↔ b.getD i 0 = c) := by
      intro i c hi
      rw [hcopied hlen.le, latest_append, if_pos (by omega)]
    obtain ⟨chain, rfl⟩ : ∃ chain : Hash, b = chain.toList := ⟨⟨b.toArray, by simpa using hlen⟩, by simp⟩
    constructor
    · exact fun ht => (ht.nonzero chain ((hhas chain).mpr rfl)).1
    · refine fun h0 => ⟨fun chain' hchain' => ?_, fun hnone => absurd ((hhas chain).mpr rfl) (hnone chain)⟩
      obtain rfl := Vector.toList_inj.mp ((hhas chain').mp hchain')
      exact ⟨h0, fun i hi => (hlatest i _ hi).mpr rfl⟩
  · next hlen =>
    have hnone : ∀ chain, ¬ HasHash m chain := by
      intro chain hchain
      exact hlen (by rw [(hhas chain).mp hchain, Vector.length_toList])
    have htells : TellsChain m ↔ Latest (copiedValues m) 0 0 :=
      ⟨fun ht => ht.zero hnone, fun h0 => ⟨fun chain hchain => absurd hchain (hnone chain), fun _ => h0⟩⟩
    rw [htells]
    by_cases hle : b.length ≤ 32
    · rw [hcopied hle, latest_append]
      split
      · exact ⟨fun h0 _ => h0, fun h0 => h0 hle⟩
      · next hpos =>
        obtain rfl := List.length_eq_zero_iff.mp (Nat.le_zero.mp (not_lt.mp hpos))
        exact iff_of_true hzeros fun _ => rfl
    · have hfits : ¬ blobFits b = true := fun hfits => hle (of_decide_eq_true hfits)
      rw [copiedValues, h, List.takeWhile_cons_of_neg hfits]
      exact iff_of_true hzeros fun hle' => absurd hle' hle

/-- **The chain is used just if the answer tells it.** -/
theorem usesChain_iff (hfresh : w.blockchainIdHash = Vector.replicate 32 0)
    (hcheck : checkBlockchainIdHash S.env w wait = some (known, w')) (hm : statusAnswers S.env w wait = [m]) :
    UsesChain S w wait m known w' ↔ TellsChain m := by
  obtain ⟨harray, hknown⟩ := checkBlockchainIdHash_chain hcheck
  rw [hm] at harray
  have hbytes : ∀ i < 32, ∀ c, w'.blockchainIdHash.toList.getD i 0 = c ↔ Latest (copiedValues m) i c := by
    intro i hi c
    rw [harray]
    exact first_answer hfresh hi c
  constructor
  · rintro ⟨hserved, hrefused⟩
    refine ⟨fun chain hchain => ?_, fun hnone => ?_⟩
    · obtain ⟨hk, hserves⟩ := hserved chain hchain
      obtain rfl := hserves.array
      exact ⟨hknown.mp hk, fun i hi => (hbytes i hi _).mp rfl⟩
    · obtain ⟨hk, -⟩ := hrefused hnone
      refine (hbytes 0 (by decide) 0).mp (not_not.mp fun h0 => ?_)
      exact Bool.false_ne_true (hk.symm.trans (hknown.mpr h0))
  · rintro ⟨hnonzero, hzero⟩
    refine ⟨fun chain hchain => ?_, fun hnone => ?_⟩
    · obtain ⟨h0, hlatest⟩ := hnonzero chain hchain
      have hsame : w'.blockchainIdHash = chain := by
        have hlist := (eq_iff_getD Vector.length_toList Vector.length_toList).mpr fun i hi =>
          (hbytes i hi _).mpr (hlatest i hi)
        exact Vector.toList_inj.mp hlist
      exact ⟨hknown.mpr (by rwa [hsame]), servesChain_of_nonzero hsame h0⟩
    · have hk : known = false := by
        by_contra hne
        exact hknown.mp (Bool.eq_true_of_not_eq_false hne) ((hbytes 0 (by decide) 0).mpr (hzero hnone))
      refine ⟨hk, fun t a account waits ht hwait => prepare_of_unknown ht ?_⟩
      rw [hwait, hcheck, hk]

end Check

/-- The wait of a new instance whose node gives this answer. -/
def told (answer : Bytes) : Wait :=
  ⟨.sent true, [.enter, .message 0 answer, .curl true, .done 0, .infoEnd, .checkReceipts .noRequest, .checkMain,
    .exit]⟩

/-- A node that reports the sample chain. -/
theorem usesChain_sampleChain :
    ∃ known w', checkBlockchainIdHash sampleEnv knownAccounts (told (statusAnswer sampleChain)) = some (known, w') ∧
      UsesChain sampleSetup knownAccounts (told (statusAnswer sampleChain)) (statusAnswer sampleChain) known w' := by
  obtain ⟨⟨known, w'⟩, hcheck⟩ := Option.isSome_iff_exists.mp (show (checkBlockchainIdHash sampleEnv knownAccounts
    (told (statusAnswer sampleChain))).isSome = true by decide +kernel)
  have hanswers : statusAnswers sampleSetup.env knownAccounts (told (statusAnswer sampleChain)) =
      [statusAnswer sampleChain] := by decide +kernel
  have htells : TellsChain (statusAnswer sampleChain) :=
    (tellsChain_of_single (reports_statusAnswer sampleChain)).mpr (by decide)
  have hfresh : knownAccounts.blockchainIdHash = Vector.replicate 32 0 := rfl
  exact ⟨known, w', hcheck, (usesChain_iff (S := sampleSetup) hfresh hcheck hanswers).mpr htells⟩

def zeroFirst : Hash := Vector.ofFn fun i => if i.val = 0 then 0 else 5

def shortAnswer : Bytes := Wire.encode [⟨4, .len (List.replicate 31 5)⟩]

/-- **Not every chain can be used**: a hash that begins with zero is asked for in vain, and one of 31 bytes is
taken for a chain id. -/
theorem zeroFirst_unknown :
    (∃ w', checkBlockchainIdHash sampleEnv knownAccounts (told (statusAnswer zeroFirst)) = some (false, w') ∧
      statusAnswers sampleEnv knownAccounts (told (statusAnswer zeroFirst)) = [statusAnswer zeroFirst] ∧
      ¬ UsesChain sampleSetup knownAccounts (told (statusAnswer zeroFirst)) (statusAnswer zeroFirst) false w') ∧
    ∃ w', checkBlockchainIdHash sampleEnv knownAccounts (told shortAnswer) = some (true, w') ∧
      w'.blockchainIdHash.toList = List.replicate 31 5 ++ [0] ∧
      ¬ UsesChain sampleSetup knownAccounts (told shortAnswer) shortAnswer true w' := by
  constructor
  · obtain ⟨⟨known, w'⟩, hcheck, hknown⟩ := (Option.any_eq_true _ _).mp (show ((checkBlockchainIdHash sampleEnv
      knownAccounts (told (statusAnswer zeroFirst))).any fun p => !p.1) = true by decide +kernel)
    obtain rfl : known = false := by simpa using hknown
    refine ⟨w', hcheck, by decide +kernel, fun h => ?_⟩
    have hhas : HasHash (statusAnswer zeroFirst) zeroFirst := by
      rw [HasHash, reports_statusAnswer zeroFirst, List.getLast?_singleton]
    exact Bool.false_ne_true (h.served zeroFirst hhas).1
  · obtain ⟨⟨known, w'⟩, hcheck, hknown⟩ := (Option.any_eq_true _ _).mp (show ((checkBlockchainIdHash sampleEnv
      knownAccounts (told shortAnswer)).any fun p =>
        p.1 && decide (p.2.blockchainIdHash.toList = List.replicate 31 5 ++ [0])) = true by decide +kernel)
    obtain ⟨hk, harray⟩ := (Bool.and_eq_true _ _).mp hknown
    obtain rfl : known = true := hk
    have harray := of_decide_eq_true harray
    refine ⟨w', hcheck, harray, fun h => ?_⟩
    have hreported : (reportedHashes shortAnswer).getLast? = some (List.replicate 31 5) := by decide +kernel
    have hnone : ∀ chain, ¬ HasHash shortAnswer chain := by
      intro chain hchain
      have hlen := congrArg List.length (Option.some.inj (hreported.symm.trans hchain))
      rw [Vector.length_toList, List.length_replicate] at hlen
      exact absurd hlen (by decide)
    exact Bool.false_ne_true (h.refused hnone).1.symm

end Libaergo
