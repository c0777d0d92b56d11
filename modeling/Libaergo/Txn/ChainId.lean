import Libaergo.Lib.Overlay
import Libaergo.Lib.Runs
import Libaergo.Nanopb.Records
import Libaergo.Txn.Calls

/-!
# The chain id of several instances (`aergo.c`)

`blockchain_id_hash` is one array of the process, although `struct aergo` has a field of that name.
Every status answer, of whatever node, overwrites it; a transaction call asks its own node only while
the first byte is zero, and then signs with whatever the array holds.  A process with instances of
several nodes sends the hash of the right node as long as each transaction finds that the last status
answer came from its own node.
-/

namespace Libaergo

open Lib Nanopb

/-! ### The status answer -/

def chainIdFields : Fields := [(1, .callback), (2, .bool), (3, .bool), (4, .callback), (5, .int32)]

def chainInfoFields : Fields :=
  [(1, .message chainIdFields), (2, .uint32), (3, .uint64), (4, .callback), (5, .callback),
    (6, .callback), (7, .callback), (8, .callback), (9, .callback), (10, .callback)]

def blockchainStatusFields : Fields :=
  [(1, .callback), (2, .uint64), (3, .callback), (4, .callback), (5, .message chainInfoFields)]

/-- `read_blob` into a buffer of 32 bytes: a shorter blob leaves the rest of the buffer. -/
def readBlob (dst : Hash) (blob : Bytes) : Option Hash :=
  if 32 < blob.length then none
  else some (Vector.ofFn fun i => if i.val < blob.length then blob.getD i.val 0 else dst[i])

/-- The callback that `handle_blockchain_status_response` sets, for `best_chain_id_hash`.  Nothing that is
stored is looked at. -/
def statusEffects : Effects Hash where
  read path := if path = [4] then some readBlob else none
  store _ _ hash := hash

/-- `handle_blockchain_status_response` on the content of the message: the array, and the result.  What
was copied before the decoding failed stays. -/
def handleBlockchainStatusResponse (hash : Hash) (msg : Bytes) : Hash × Bool :=
  let p := pbDecode blockchainStatusFields statusEffects.dest hash msg
  (p.1, p.2.isSome)

/-- The values of `best_chain_id_hash` in the message. -/
def reportedHashes (msg : Bytes) : List Bytes :=
  values [4] (record statusEffects.callbacks blockchainStatusFields msg).1

/-- The message is a `BlockchainStatus` with this hash. -/
def Reports (hash : Hash) (msg : Bytes) : Prop := reportedHashes msg = [hash.toList]

lemma readBlob_eq_some {dst root : Hash} {blob : Bytes} (h : readBlob dst blob = some root) :
    blob.length ≤ 32 ∧ root.toList = overlay dst.toList blob := by
  obtain ⟨hlen, h⟩ := Option.ite_none_left_eq_some.mp h
  have hlen := not_lt.mp hlen
  obtain rfl := Option.some.inj h
  refine ⟨hlen, ?_⟩
  have hroot : (overlay dst.toList blob).length = 32 := by
    rw [overlay_length] <;> rw [Vector.length_toList]
    exact hlen
  refine (eq_iff_getD (Vector.length_toList) hroot).mpr fun i hi => ?_
  rw [overlay_getD, List.getD_eq_getElem _ _ (by rw [Vector.length_toList]; exact hi), Vector.getElem_toList,
    Vector.getElem_ofFn, List.getD_eq_getElem dst.toList _ (by rw [Vector.length_toList]; exact hi),
    Vector.getElem_toList]
  rfl

lemma readBlob_isSome (dst : Hash) (blob : Bytes) : (readBlob dst blob).isSome ↔ blob.length ≤ 32 := by
  unfold readBlob
  split
  · next h => exact iff_of_false Bool.false_ne_true (not_le.mpr h)
  · next h => exact iff_of_true rfl (not_lt.mp h)

/-- A value that `read_blob` takes. -/
def blobFits (blob : Bytes) : Bool := blob.length ≤ 32

/-- The values are copied over each other until one is too long. -/
lemma statusEffects_run (hash : Hash) (es : List Entry) :
    (statusEffects.run hash es).1.toList =
      ((values [4] es).takeWhile blobFits).foldl overlay hash.toList := by
  induction es generalizing hash with
  | nil => rfl
  | cons entry es ih =>
    cases entry with
    | number path value => exact ih hash
    | bytes path value =>
      by_cases h4 : path = [4]
      · subst h4
        have hvalues : values [4] (.bytes [4] value :: es) = value :: values [4] es := rfl
        have happ := Effects.apply_bytes (e := statusEffects) (if_pos rfl) hash value
        have hsome := readBlob_isSome hash value
        rw [hvalues]
        cases hread : readBlob hash value with
        | none =>
          rw [hread] at happ hsome
          have hlong : ¬ blobFits value = true := fun h => Bool.false_ne_true (hsome.mpr (of_decide_eq_true h))
          rw [Effects.run_cons_of_none happ, List.takeWhile_cons_of_neg hlong, List.foldl_nil]
        | some root =>
          rw [hread] at happ
          obtain ⟨hlen, hroot⟩ := readBlob_eq_some hread
          rw [Effects.run_cons_of_some happ, ih, hroot,
            List.takeWhile_cons_of_pos (show blobFits value = true from decide_eq_true hlen), List.foldl_cons]
      · have hvalues : values [4] (.bytes path value :: es) = values [4] es :=
          List.filterMap_cons_none (if_neg h4)
        have hread : statusEffects.read path = none := if_neg h4
        have happ : statusEffects.apply hash (.bytes path value) = some hash := by rw [Effects.apply, hread]
        rw [hvalues, Effects.run_cons_of_some happ]
        exact ih hash

/-- **The array after a status answer**, whatever the message is. -/
theorem handleBlockchainStatusResponse_toList (hash : Hash) (msg : Bytes) :
    (handleBlockchainStatusResponse hash msg).1.toList =
      ((reportedHashes msg).takeWhile blobFits).foldl overlay hash.toList := by
  rw [handleBlockchainStatusResponse, pbDecode_effects]
  exact statusEffects_run hash _

/-- **A status answer leaves the hash of its node**, whatever stood there. -/
theorem handleBlockchainStatusResponse_reports {hash new : Hash} {msg : Bytes}
    (h : Reports new msg) : (handleBlockchainStatusResponse hash msg).1 = new := by
  have hlen : new.toList.length = 32 := Vector.length_toList
  have hfits : blobFits new.toList = true := decide_eq_true hlen.le
  have harray := handleBlockchainStatusResponse_toList hash msg
  rw [h, List.takeWhile_cons_of_pos hfits, List.takeWhile_nil, List.foldl_cons,
    List.foldl_nil, overlay, List.drop_of_length_le (by simp), List.append_nil] at harray
  exact Vector.toList_inj.mp harray

/-! ### The process -/

section Process

variable {ι : Type*} (sha256 : Bytes → Hash)

/-- A transaction call over the instance `on`: the answers that are decoded while it waits for a status
and for the account state, whether the account state came, and the call of the encoder. -/
structure Transact (ι : Type*) where
  on : ι
  fetched : List (ι × Bytes)
  waited : List (ι × Bytes)
  accountOk : Bool
  account : Account
  D : Devices
  sized : D.Sized
  stack : ℕ → UInt8
  psize : ℕ
  call : EncodeCall

/-- What an instance has sent. -/
structure Sent (ι : Type*) where
  on : ι
  account : Account
  encoding : Encoding

/-- The process: the global array, the instance whose status answer was decoded last (a history
variable: the program has nothing of the kind), and what was sent. -/
structure Process (ι : Type*) where
  blockchainIdHash : Hash
  lastReporter : Option ι
  sent : List (Sent ι)

/-- `uint8_t blockchain_id_hash[32] = {0}` -/
def Process.start : Process ι := ⟨Vector.replicate 32 0, none, []⟩

/-- A status answer over an instance is decoded. -/
def Process.answer (p : Process ι) (m : ι × Bytes) : Process ι :=
  { p with
    blockchainIdHash := (handleBlockchainStatusResponse p.blockchainIdHash m.2).1
    lastReporter := some m.1 }

/-- `check_blockchain_id_hash`, up to its result: the wait for a status when there is no hash. -/
def Process.fetch (p : Process ι) (fetched : List (ι × Bytes)) : Process ι :=
  if p.blockchainIdHash[0] = 0 then fetched.foldl Process.answer p else p

/-- The process when a transaction call builds its transaction, if it comes that far. -/
def Process.before (p : Process ι) (t : Transact ι) : Option (Process ι) :=
  let p := p.fetch t.fetched
  if p.blockchainIdHash[0] = 0 then none
  else
    let p := t.waited.foldl Process.answer p
    if t.accountOk then some p else none

inductive ProcessAct (ι : Type*) where
  | answer (m : ι × Bytes)
  | transact (t : Transact ι)

def Process.transact (p : Process ι) (t : Transact ι) : Option (Process ι) :=
  match p.before t with
  | none =>
    let p := p.fetch t.fetched
    some (if p.blockchainIdHash[0] = 0 then p else t.waited.foldl Process.answer p)
  | some p =>
    (t.call.run sha256 t.D t.stack p.blockchainIdHash t.psize t.account).map fun e =>
      { p with sent := ⟨t.on, t.account, e⟩ :: p.sent }

def Process.step (p : Process ι) : ProcessAct ι → Option (Process ι)
  | .answer m => some (p.answer m)
  | .transact t => p.transact sha256 t

/-- The messages a process decodes in an act. -/
def ProcessAct.messages : ProcessAct ι → List (ι × Bytes)
  | .answer m => [m]
  | .transact t => t.fetched ++ t.waited

/-- Every status answer is that of the node of its instance. -/
def ProcessAct.Honest (reported : ι → Hash) (a : ProcessAct ι) : Prop :=
  ∀ m ∈ a.messages, Reports (reported m.1) m.2

/-- **The condition**: a transaction that comes to be built finds that the last status answer decoded in
the process came from its own node. -/
def Process.OwnAnswerLast (p : Process ι) : ProcessAct ι → Prop
  | .answer _ => True
  | .transact t => ∀ q, p.before t = some q → q.lastReporter = some t.on

/-- A reader of what was sent finds the hash of the node of the instance, in the body and in the texts
of the hashes. -/
def Sent.Own (reported : ι → Hash) (s : Sent ι) : Prop :=
  ∀ enc, s.encoding.result = .ok enc → ∃ tx body,
    decodeTxList (enc.message.drop 5) = some [tx] ∧ decodeTxBody tx.body = some body ∧
    body.chainIdHash = (reported s.on).toList ∧ tx.hash = (sha256 body.text).toList ∧
    (s.account.useLedger = false →
      s.encoding.handed = some (.ecdsa (sha256 body.unsignedText)))

variable {sha256} {reported : ι → Hash}

/-- What every run keeps: the array holds the hash of the last reporter, and what was sent its own. -/
structure Process.Sound (sha256 : Bytes → Hash) (reported : ι → Hash) (p : Process ι) : Prop where
  reporter : ∀ i, p.lastReporter = some i → p.blockchainIdHash = reported i
  sent : ∀ s ∈ p.sent, s.Own sha256 reported

lemma Process.Sound.answer {p : Process ι} {m : ι × Bytes} (h : p.Sound sha256 reported)
    (hm : Reports (reported m.1) m.2) : (p.answer m).Sound sha256 reported := by
  refine ⟨fun i hi => ?_, h.sent⟩
  obtain rfl := Option.some.inj hi
  exact handleBlockchainStatusResponse_reports hm

lemma Process.Sound.answers {ms : List (ι × Bytes)} {p : Process ι} (h : p.Sound sha256 reported)
    (hms : ∀ m ∈ ms, Reports (reported m.1) m.2) :
    (ms.foldl Process.answer p).Sound sha256 reported := by
  induction ms generalizing p with
  | nil => exact h
  | cons m ms ih =>
    have hm := hms m (List.mem_cons_self ..)
    exact ih (h.answer hm) fun m' hm' => hms m' (List.mem_cons_of_mem _ hm')

lemma Process.Sound.fetch {ms : List (ι × Bytes)} {p : Process ι} (h : p.Sound sha256 reported)
    (hms : ∀ m ∈ ms, Reports (reported m.1) m.2) : (p.fetch ms).Sound sha256 reported := by
  unfold Process.fetch
  split
  · exact h.answers hms
  · exact h

lemma Process.Sound.before {p q : Process ι} {t : Transact ι} (h : p.Sound sha256 reported)
    (ht : (ProcessAct.transact t).Honest reported) (hq : p.before t = some q) :
    q.Sound sha256 reported := by
  have hfetch := h.fetch fun m hm => ht m (List.mem_append_left _ hm)
  have hwait := hfetch.answers fun m hm => ht m (List.mem_append_right _ hm)
  simp only [Process.before] at hq
  split at hq
  · cases hq
  · split at hq
    · obtain rfl := Option.some.inj hq
      exact hwait
    · cases hq

lemma sent_chainIdHash {on : ι} {D : Devices} (hD : D.Sized) {stack : ℕ → UInt8} {hash : Hash}
    {psize : ℕ} {account : Account} {c : EncodeCall} {e : Encoding} (hhash : hash = reported on)
    (hrun : c.run sha256 D stack hash psize account = some e) :
    (Sent.mk on account e).Own sha256 reported := by
  intro enc hok
  obtain ⟨sign, txn, tx, htxn, htx, hbody, hhash', hhanded⟩ := EncodeCall.read hD hrun hok
  have hchain : txn.chainIdHash = reported on := by
    rw [htxn, ← hhash]
    exact EncodeCall.txn_chainIdHash ..
  exact ⟨tx, txn.toBody, htx, hbody, congrArg Vector.toList hchain, hhash', hhanded⟩

/-- **One act**, of which every answer is honest and every transaction finds its own. -/
lemma Process.Sound.step {p q : Process ι} {a : ProcessAct ι} (h : p.Sound sha256 reported)
    (ha : a.Honest reported ∧ p.OwnAnswerLast a) (hstep : p.step sha256 a = some q) :
    q.Sound sha256 reported := by
  obtain ⟨hhonest, hown⟩ := ha
  cases a with
  | answer m =>
    obtain rfl := Option.some.inj hstep
    exact h.answer (hhonest m (List.mem_singleton.mpr rfl))
  | transact t =>
    have hfetch := h.fetch fun m hm => hhonest m (List.mem_append_left _ hm)
    have hwait := hfetch.answers fun m hm => hhonest m (List.mem_append_right _ hm)
    simp only [Process.step, Process.transact] at hstep
    cases hbefore : p.before t with
    | none =>
      -- nothing is sent: only the answers of the wait
      rw [hbefore] at hstep
      obtain rfl := Option.some.inj hstep
      split
      · exact hfetch
      · exact hwait
    | some r =>
      rw [hbefore] at hstep
      obtain ⟨e, hrun, rfl⟩ := Option.map_eq_some_iff.mp hstep
      have hr := h.before hhonest hbefore
      have hhash := hr.reporter t.on (hown r hbefore)
      refine ⟨hr.reporter, fun s hs => ?_⟩
      rcases List.mem_cons.mp hs with rfl | hs
      · exact sent_chainIdHash t.sized hhash hrun
      · exact hr.sent s hs

/-- **Every transaction carries the hash of its own node**, in every run in which each transaction finds
that the last status answer came from there. -/
theorem sent_own_chain {as : List (ProcessAct ι)} {p : Process ι}
    (has : Every (Process.step sha256) (fun p a => a.Honest reported ∧ p.OwnAnswerLast a)
      Process.start as)
    (hrun : run (Process.step sha256) Process.start as = some p) :
    ∀ s ∈ p.sent, s.Own sha256 reported := by
  have hstart : Process.start.Sound sha256 reported :=
    ⟨by rintro i ⟨⟩, by rintro s ⟨⟩⟩
  have hsound := run_invariant (fun _ _ _ h ha hs => h.step ha hs) hstart has hrun
  exact hsound.sent

end Process

/-! ### Two instances -/

def statusAnswer (hash : Hash) : Bytes := Wire.encode [⟨4, .len hash.toList⟩]

lemma reports_statusAnswer (hash : Hash) : Reports hash (statusAnswer hash) := by
  have hok : (⟨4, .len hash.toList⟩ : Wire.Field).Ok := lenField_ok (by decide) (by decide) (by simp)
  have hencodes : Encodes blockchainStatusFields [] (statusAnswer hash) [.bytes [4] hash.toList] :=
    Encodes.bytes 4 hash.toList hok (by simp) rfl (Encodes.nil ..)
  have hrecord := record_encodes statusEffects.callbacks hencodes
  rw [Reports, reportedHashes, hrecord, values_filter rfl]
  rfl

def twoChains : Bool → Hash
  | false => sampleChain
  | true => Vector.replicate 32 4

/-- A transfer over the instance, which is told these answers when it asks for the status. -/
def transferOver (on : Bool) (fetched : List (Bool × Bytes)) : Transact Bool where
  on := on
  fetched := fetched
  waited := []
  accountOk := true
  account := sampleAccount false
  D := softwareKey
  sized := softwareKey_sized
  stack := zeroStack
  psize := 1024
  call := .transfer sampleAddress (some [1])

/-- Both instances ask their nodes before they send. -/
def bothAsk : List (ProcessAct Bool) :=
  [.transact (transferOver false [(false, statusAnswer (twoChains false))]),
    .answer (true, statusAnswer (twoChains true)), .transact (transferOver true [])]

/-- Then both transactions carry the right hash. -/
theorem sent_own_chain_both :
    ∃ p, run (Process.step sha256) Process.start bothAsk = some p ∧
      ∀ s ∈ p.sent, s.Own sha256 twoChains := by
  obtain ⟨p, hp⟩ := Option.isSome_iff_exists.mp
    (show (run (Process.step sha256) Process.start bothAsk).isSome = true by decide +kernel)
  have hreports : ∀ b, Reports (twoChains b) (statusAnswer (twoChains b)) :=
    fun b => reports_statusAnswer _
  have has : Every (Process.step sha256)
      (fun p a => a.Honest twoChains ∧ p.OwnAnswerLast a) Process.start bothAsk := by
    refine ⟨⟨?_, ?_⟩, fun p1 _ => ⟨⟨?_, trivial⟩, fun p2 h2 => ⟨⟨?_, ?_⟩, fun _ _ => trivial⟩⟩⟩
    · intro m hm
      obtain rfl : m = (false, statusAnswer (twoChains false)) := by
        simpa [ProcessAct.messages, transferOver] using hm
      exact hreports false
    · intro q hq
      simp only [Process.before] at hq
      split at hq
      · cases hq
      · obtain rfl := Option.some.inj hq
        rfl
    · intro m hm
      obtain rfl := List.mem_singleton.mp hm
      exact hreports true
    · rintro m ⟨⟩
    · intro q hq
      obtain rfl := Option.some.inj h2
      simp only [Process.before, Process.fetch, ite_self, transferOver, List.foldl_nil] at hq
      split at hq
      · cases hq
      · obtain rfl := Option.some.inj hq
        rfl
  exact ⟨p, hp, sent_own_chain has hp⟩

/-- **The second instance signs for the chain of the first**: each asks its own node if it asks at all,
but the hash is set when the second one sends. -/
theorem second_instance_sends_first_chain :
    ∃ p, run (Process.step sha256) Process.start
        [.transact (transferOver false [(false, statusAnswer (twoChains false))]),
          .transact (transferOver true [(true, statusAnswer (twoChains true))])] = some p ∧
      p.sent.map (fun s => (s.on, s.encoding.sentBody.map TxBody.chainIdHash)) =
        [(true, some (twoChains false).toList), (false, some (twoChains false).toList)] ∧
      ¬ ∀ s ∈ p.sent, s.Own sha256 twoChains := by
  have h : (run (Process.step sha256) Process.start
      [.transact (transferOver false [(false, statusAnswer (twoChains false))]),
        .transact (transferOver true [(true, statusAnswer (twoChains true))])]).map
      (fun p => p.sent.map fun s => (s.on, s.encoding.sentBody.map TxBody.chainIdHash)) =
        some [(true, some (twoChains false).toList), (false, some (twoChains false).toList)] := by
    decide +kernel
  obtain ⟨p, hp, hsent⟩ := Option.map_eq_some_iff.mp h
  refine ⟨p, hp, hsent, fun hown => ?_⟩
  obtain ⟨s, rest, hs⟩ : ∃ s rest, p.sent = s :: rest := by
    cases hps : p.sent with
    | nil =>
      rw [hps] at hsent
      cases hsent
    | cons s rest => exact ⟨s, rest, rfl⟩
  rw [hs, List.map_cons] at hsent
  obtain ⟨hfirst, -⟩ := List.cons.inj hsent
  obtain ⟨hon, hchain⟩ := Prod.mk.inj hfirst
  obtain ⟨body, hbody, hchain⟩ := Option.map_eq_some_iff.mp hchain
  cases hres : s.encoding.result with
  | error error => simp [Encoding.sentBody, hres, Except.toOption] at hbody
  | ok enc =>
    obtain ⟨tx, body', htx, hbody', hchain', -⟩ :=
      hown s (hs ▸ List.mem_cons_self ..) enc hres
    rw [Encoding.sentBody_eq hres htx hbody'] at hbody
    obtain rfl := Option.some.inj hbody
    rw [hchain', hon] at hchain
    exact absurd hchain (by decide)

end Libaergo
